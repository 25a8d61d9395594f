import Mathlib.Data.List.Flatten
import Mathlib.Data.List.InsertIdx
import Mathlib.Data.List.Pairwise
import OnAir.Edit
import OnAir.Proofs.Change
import OnAir.Proofs.RunningOrder

set_option autoImplicit false

namespace OnAir

section Lists

variable {α β γ : Type}

/-- Where `f` has an answer it goes over to `g x`, and `g` keeps what has none. -/
structure Acts (f : α → Option (β × α)) (answer : α → Option β) (g : α → α) (x : α) : Prop where
  result : f x = (answer x).map (·, g x)
  idle : answer x = none → g x = x

abbrev Alone (answer : α → Option β) (l : List α) : Prop :=
  l.Pairwise fun x y => answer x = none ∨ answer y = none

theorem Alone.map {answer : α → Option β} {l : List α} (h : Alone answer l) (f : α → β → γ) :
    Alone (fun x => (answer x).map (f x)) l :=
  h.imp fun hxy => hxy.imp Option.map_eq_none_iff.mpr Option.map_eq_none_iff.mpr

/-- Where one element at most has an answer, to change the first that has is to go over them all. -/
theorem Acts.changeFirst {f : α → Option (β × α)} {answer : α → Option β} {g : α → α} {l : List α}
    (h : ∀ x ∈ l, Acts f answer g x) (alone : Alone answer l) :
    Acts (changeFirst? f) (List.findSome? answer) (List.map g) l := by
  induction l with
  | nil => exact ⟨rfl, fun _ => rfl⟩
  | cons x rest ih =>
    obtain ⟨hx, hrest⟩ := List.forall_mem_cons.mp h
    obtain ⟨others, alone'⟩ := List.pairwise_cons.mp alone
    have acts := ih hrest alone'
    constructor
    · rw [changeFirst?, hx.result, List.findSome?_cons, List.map_cons]
      cases hb : answer x with
      | none =>
        rw [hx.idle hb, acts.result]
        exact Option.map_map ..
      | some b =>
        have hnone : rest.findSome? answer = none := List.findSome?_eq_none_iff.mpr fun y hy =>
          (others y hy).resolve_left (hb ▸ Option.some_ne_none b)
        rw [acts.idle hnone]
        rfl
    · intro hnone
      obtain ⟨hb, hothers⟩ := List.forall_mem_cons.mp (List.findSome?_eq_none_iff.mp hnone)
      rw [List.map_cons, hx.idle hb, acts.idle (List.findSome?_eq_none_iff.mpr hothers)]

theorem alone_guard {key : α → γ} [DecidableEq γ] {l : List α} (h : (l.map key).Nodup) (k : γ) :
    Alone (Option.guard fun x => decide (key x = k)) l := by
  refine (List.pairwise_map.mp h).imp fun {x y} hne => ?_
  rw [Option.guard_eq_none_iff, Option.guard_eq_none_iff, decide_eq_false_iff_not,
    decide_eq_false_iff_not]
  by_cases hx : key x = k
  · exact .inr fun hy => hne (hx.trans hy.symm)
  · exact .inl hx

theorem eraseP_eq_filter {p : α → Bool} {l : List α} (alone : Alone (Option.guard p) l) :
    l.eraseP p = l.filter fun x => !p x := by
  induction l with
  | nil => rfl
  | cons x rest ih =>
    obtain ⟨others, alone'⟩ := List.pairwise_cons.mp alone
    cases hp : p x with
    | true =>
      rw [List.eraseP_cons_of_pos hp, List.filter_cons_of_neg (by rw [hp]; decide)]
      refine (List.filter_eq_self.mpr fun y hy => ?_).symm
      have hy' := (others y hy).resolve_left fun h => by
        rw [Option.guard_eq_none_iff, hp] at h
        cases h
      rw [Option.guard_eq_none_iff.mp hy']
      rfl
    | false =>
      rw [List.eraseP_cons_of_neg (by rw [hp]; decide), List.filter_cons_of_pos (by rw [hp]; rfl),
        ih alone']

theorem Acts.takeFirst {p : α → Bool} {l : List α} (alone : Alone (Option.guard p) l) :
    Acts (takeFirst? p) (List.findSome? (Option.guard p)) (List.filter fun x => !p x) l := by
  constructor
  · rw [takeFirst?, eraseP_eq_filter alone, List.findSome?_guard]
  · intro hnone
    refine List.filter_eq_self.mpr fun x hx => ?_
    rw [Option.guard_eq_none_iff.mp (List.findSome?_eq_none_iff.mp hnone x hx)]
    rfl

theorem Acts.modifyFirst {p : α → Bool} {f : α → α} {l : List α} (alone : Alone (Option.guard p) l) :
    Acts (fun l => (modifyFirst? p f l).map ((), ·))
      (List.findSome? fun x => (Option.guard p x).map fun _ => ())
      (List.map fun x => if p x then f x else x) l := by
  have hf : ∀ x ∈ l, Acts (fun x => if p x then some ((), f x) else none)
      (fun x => (Option.guard p x).map fun _ => ()) (fun x => if p x then f x else x) x := by
    intro x _
    cases hp : p x with
    | true => constructor <;> simp [Option.guard, hp]
    | false => constructor <;> simp [Option.guard, hp]
  obtain ⟨result, idle⟩ := Acts.changeFirst hf (alone.map fun _ _ => ())
  refine ⟨?_, idle⟩
  rw [← result, modifyFirst?, Option.map_map]
  exact Option.map_id' ..

theorem alone_of_flatMap {answer : β → Option γ} {parts : α → List β} {l : List α}
    (h : Alone answer (l.flatMap parts)) : Alone (fun x => (parts x).findSome? answer) l := by
  refine (List.pairwise_flatMap.mp h).2.imp fun {x y} hxy => ?_
  rw [List.findSome?_eq_none_iff, List.findSome?_eq_none_iff]
  by_cases hx : ∀ b ∈ parts x, answer b = none
  · exact .inl hx
  · obtain ⟨b, hb, hne⟩ := not_forall₂.mp hx
    exact .inr fun c hc => (hxy b hb c hc).resolve_left hne

theorem eq_of_mem_flatMap {parts : α → List β} {l : List α} (h : (l.flatMap parts).Nodup) {x y : α}
    (hx : x ∈ l) (hy : y ∈ l) {b : β} (hbx : b ∈ parts x) (hby : b ∈ parts y) : x = y := by
  by_contra hne
  have symm : Std.Symm (Function.onFun List.Disjoint parts) := ⟨fun _ _ h _ hx hy => h hy hx⟩
  exact (List.nodup_flatMap.mp h).2.forall hx hy hne hbx hby

theorem findSome?_flatMap {answer : β → Option γ} {parts : α → List β} {l : List α} :
    (l.flatMap parts).findSome? answer = l.findSome? fun x => (parts x).findSome? answer := by
  induction l with
  | nil => rfl
  | cons x rest ih =>
    rw [List.flatMap_cons, List.findSome?_append, ih, List.findSome?_cons]
    cases (parts x).findSome? answer <;> rfl

theorem insertIdx_min (index : Nat) (x : α) (l : List α) :
    l.insertIdx (min index l.length) x = l.take index ++ x :: l.drop index := by
  induction l generalizing index with
  | nil => simp
  | cons y rest ih =>
    cases index with
    | zero => simp
    | succ index => simp [Nat.succ_min_succ, ih]

end Lists

namespace Rundown

def reline (rundown : Rundown) (f : Segment → List Line) : Rundown :=
  { rundown with
    segments := rundown.segments.map fun segment => { segment with lines := f segment } }

def eachLine (rundown : Rundown) (f : Line → Line) : Rundown :=
  rundown.reline fun segment => segment.lines.map f

def reitem (rundown : Rundown) (f : List Item → List Item) : Rundown :=
  rundown.reline fun segment => segment.lines.map fun line => { line with items := f line.items }

def setItem (rundown : Rundown) (id : Id .item) (f : Item → Item) : Rundown :=
  rundown.reitem (List.map fun item => if item.id = id then f item else item)

def withoutItem (rundown : Rundown) (id : Id .item) : Rundown :=
  rundown.reitem (List.filter fun item => item.id ≠ id)

def setLine (rundown : Rundown) (id : Id .line) (f : Line → Line) : Rundown :=
  rundown.reline fun segment => segment.lines.map fun line => if line.id = id then f line else line

def withoutLine (rundown : Rundown) (id : Id .line) : Rundown :=
  rundown.reline fun segment => segment.lines.filter fun line => line.id ≠ id

/-- A line more in a segment; an index past its lines stands for their end. -/
def withLine (rundown : Rundown) (id : Id .segment) (index : Nat) (line : Line) : Rundown :=
  rundown.reline fun segment =>
    if segment.id = id then segment.lines.insertIdx (min index segment.lines.length) line
    else segment.lines

variable {rundown : Rundown} {β : Type}

theorem lines_reline (rundown : Rundown) (f : Segment → List Line) :
    (rundown.reline f).lines = rundown.segments.flatMap f :=
  List.flatMap_map ..

theorem lines_eachLine (rundown : Rundown) (f : Line → Line) :
    (rundown.eachLine f).lines = rundown.lines.map f := by
  rw [eachLine, lines_reline, lines, List.map_flatMap]

theorem eachLine_eachLine (rundown : Rundown) (f g : Line → Line) :
    (rundown.eachLine f).eachLine g = rundown.eachLine fun line => g (f line) := by
  simp only [eachLine, reline, List.map_map, Function.comp_def]

theorem lines_reitem (rundown : Rundown) (f : List Item → List Item) :
    (rundown.reitem f).lines =
      rundown.lines.map fun line => { line with items := f line.items } :=
  rundown.lines_eachLine _

theorem lines_setLine (rundown : Rundown) (id : Id .line) (f : Line → Line) :
    (rundown.setLine id f).lines =
      rundown.lines.map fun line => if line.id = id then f line else line :=
  rundown.lines_eachLine _

theorem lines_withoutLine (rundown : Rundown) (id : Id .line) :
    (rundown.withoutLine id).lines = rundown.lines.filter fun line => line.id ≠ id := by
  rw [withoutLine, lines_reline, lines, List.filter_flatMap]

theorem filter_line_eq_self {id : Id .line} {lines : List Line} (h : ∀ line ∈ lines, line.id ≠ id) :
    lines.filter (fun line => line.id ≠ id) = lines :=
  List.filter_eq_self.mpr fun line hl => decide_eq_true (h line hl)

theorem filter_line_append_cons (line : Line) (first last : List Line) :
    (first ++ line :: last).filter (fun other => other.id ≠ line.id) =
      (first ++ last).filter fun other => other.id ≠ line.id := by
  rw [List.filter_append, List.filter_cons_of_neg (by simp), ← List.filter_append]

theorem isSome_line?_reitem (rundown : Rundown) (f : List Item → List Item) (id : Id .line) :
    ((rundown.reitem f).line? id).isSome = (rundown.line? id).isSome := by
  rw [line?, lines_reitem, List.find?_map, Option.isSome_map]
  rfl

theorem isSome_line?_setLine (rundown : Rundown) (id : Id .line) {f : Line → Line}
    (hf : ∀ line, (f line).id = line.id) (other : Id .line) :
    ((rundown.setLine id f).line? other).isSome = (rundown.line? other).isSome := by
  have hids : (rundown.setLine id f).lines.map (·.id) = rundown.lines.map (·.id) := by
    rw [lines_setLine, List.map_map]
    refine List.map_congr_left fun line _ => ?_
    rw [Function.comp_apply, apply_ite Line.id, hf, ite_self]
  rw [Bool.eq_iff_iff, isSome_line?, isSome_line?, hids]

theorem mem_withLine {id : Id .segment} (h : (rundown.segment? id).isSome) (index : Nat)
    (line : Line) : line ∈ (rundown.withLine id index line).lines := by
  rw [segment?, List.find?_isSome] at h
  obtain ⟨segment, hs, hid⟩ := h
  rw [withLine, lines_reline]
  refine List.mem_flatMap_of_mem hs ?_
  rw [if_pos (of_decide_eq_true hid), insertIdx_min]
  exact List.mem_append_right _ List.mem_cons_self

theorem segmentIds_reline (rundown : Rundown) (f : Segment → List Line) :
    (rundown.reline f).segments.map (·.id) = rundown.segments.map (·.id) :=
  List.map_map ..

theorem isSome_segment?_reline (rundown : Rundown) (f : Segment → List Line) (id : Id .segment) :
    ((rundown.reline f).segment? id).isSome = (rundown.segment? id).isSome := by
  rw [segment?, reline, List.find?_map, Option.isSome_map]
  rfl

theorem isSome_segment?_withoutLine (rundown : Rundown) (line : Id .line) (id : Id .segment) :
    ((rundown.withoutLine line).segment? id).isSome = (rundown.segment? id).isSome :=
  isSome_segment?_reline ..

theorem Distinct.withoutLine (distinct : rundown.Distinct) (id : Id .line) :
    (rundown.withoutLine id).Distinct := by
  have hlines : (rundown.withoutLine id).lines.Sublist rundown.lines := by
    rw [lines_withoutLine]
    exact List.filter_sublist
  refine ⟨distinct.layers, ?_, (hlines.map _).nodup distinct.lines,
    (hlines.flatMap _).nodup distinct.items⟩
  rw [Rundown.withoutLine, segmentIds_reline]
  exact distinct.segments

theorem line?_withoutLine (rundown : Rundown) (id : Id .line) :
    (rundown.withoutLine id).line? id = none := by
  rw [line?, lines_withoutLine, List.find?_eq_none]
  intro line hl
  have hne := of_decide_eq_true (List.mem_filter.mp hl).2
  simpa only [decide_eq_true_eq] using hne

theorem changeLines?_eq {f : List Line → Option (β × List Line)} {answer : Line → Option β}
    {g : List Line → List Line} (alone : Alone answer rundown.lines)
    (h : ∀ segment ∈ rundown.segments, Acts f (List.findSome? answer) g segment.lines) :
    rundown.changeLines? f =
      (rundown.lines.findSome? answer).map (·, rundown.reline fun segment => g segment.lines) := by
  have hsegments : ∀ segment ∈ rundown.segments,
      Acts (fun segment => (f segment.lines).map fun r => (r.1, { segment with lines := r.2 }))
        (fun segment => segment.lines.findSome? answer)
        (fun segment => { segment with lines := g segment.lines }) segment := by
    intro segment hs
    obtain ⟨result, idle⟩ := h segment hs
    constructor
    · rw [result, Option.map_map]
      rfl
    · intro hnone
      rw [idle hnone]
  rw [changeLines?, (Acts.changeFirst hsegments (alone_of_flatMap alone)).result, lines,
    findSome?_flatMap, Option.map_map]
  rfl

theorem changeItems?_eq {f : List Item → Option (β × List Item)} {answer : Item → Option β}
    {g : List Item → List Item} (alone : Alone answer (rundown.lines.flatMap Line.items))
    (h : ∀ line ∈ rundown.lines, Acts f (List.findSome? answer) g line.items) :
    rundown.changeItems? f =
      (rundown.lines.findSome? fun line => (line.items.findSome? answer).map (line.id, ·)).map
        (·, rundown.reitem g) := by
  have hlines : ∀ line ∈ rundown.lines,
      Acts (fun line => (f line.items).map fun r => ((line.id, r.1), { line with items := r.2 }))
        (fun line => (line.items.findSome? answer).map (line.id, ·))
        (fun line => { line with items := g line.items }) line := by
    intro line hl
    obtain ⟨result, idle⟩ := h line hl
    constructor
    · rw [result, Option.map_map, Option.map_map]
      rfl
    · intro hnone
      rw [idle (Option.map_eq_none_iff.mp hnone)]
  have aloneLines := (alone_of_flatMap alone).map fun line (b : β) => (line.id, b)
  refine changeLines?_eq aloneLines fun segment hs => Acts.changeFirst (fun line hl => ?_) ?_
  · exact hlines line (List.mem_flatMap_of_mem hs hl)
  · exact (List.pairwise_flatMap.mp aloneLines).1 segment hs

namespace Distinct

theorem alone_line (distinct : rundown.Distinct) (id : Id .line) :
    Alone (Option.guard fun line => decide (line.id = id)) rundown.lines :=
  alone_guard distinct.lines id

theorem alone_item (distinct : rundown.Distinct) (id : Id .item) :
    Alone (Option.guard fun item => decide (item.id = id)) (rundown.lines.flatMap Line.items) := by
  refine alone_guard ?_ id
  rw [List.map_flatMap]
  exact distinct.items

theorem item?_of_mem (distinct : rundown.Distinct) {line : Line} (hl : line ∈ rundown.lines)
    {item : Item} (hi : item ∈ line.items) : rundown.item? item.id = some (line, item) := by
  obtain ⟨spot, hs, rfl⟩ := exists_spot hl
  have hfound := RunningOrder.item?_of_mem (distinct.itemIds_nodup rfl) hs hi
  have hline := congrArg (Option.map fun found => (found.1.line, found.2)) hfound
  rw [RunningOrder.item?, List.map_findSome?] at hline
  rw [Rundown.item?, ← spots_map_line, List.findSome?_map]
  simpa only [Function.comp_def, Option.map_map, Option.map_some] using hline

theorem line?_of_mem (distinct : rundown.Distinct) {line : Line} (hl : line ∈ rundown.lines) :
    rundown.line? line.id = some line := by
  obtain ⟨found, hfound⟩ := Option.isSome_iff_exists.mp (isSome_line?.mpr (List.mem_map_of_mem hl))
  obtain ⟨hmem, hid⟩ := mem_of_line? hfound
  rw [hfound, List.inj_on_of_nodup_map distinct.lines hmem hl hid]

end Distinct

theorem takeLine?_eq (distinct : rundown.Distinct) (id : Id .line) :
    rundown.takeLine? id = (rundown.line? id).map (·, rundown.withoutLine id) := by
  have alone := distinct.alone_line id
  rw [takeLine?, changeLines?_eq alone fun segment hs =>
    Acts.takeFirst ((List.pairwise_flatMap.mp alone).1 segment hs), List.findSome?_guard]
  simp only [line?, withoutLine, decide_not]

theorem modifyLine?_eq (distinct : rundown.Distinct) (id : Id .line) (f : Line → Line) :
    rundown.modifyLine? id f = (rundown.line? id).map fun _ => rundown.setLine id f := by
  have alone := distinct.alone_line id
  rw [modifyLine?, changeLines?_eq (alone.map fun _ _ => ()) fun segment hs =>
    Acts.modifyFirst ((List.pairwise_flatMap.mp alone).1 segment hs), line?, ← List.findSome?_guard]
  simp only [setLine, decide_eq_true_eq, Option.map_map, List.map_findSome?, Function.comp_def]

theorem takeItem?_eq (distinct : rundown.Distinct) (id : Id .item) :
    rundown.takeItem? id =
      (rundown.item? id).map fun r => ((r.1.id, r.2), rundown.withoutItem id) := by
  have alone := distinct.alone_item id
  rw [takeItem?, changeItems?_eq alone fun line hl =>
    Acts.takeFirst ((List.pairwise_flatMap.mp alone).1 line hl)]
  simp only [item?, Line.item?, withoutItem, decide_not, List.findSome?_guard, List.map_findSome?,
    Option.map_map, Function.comp_def]

theorem modifyItem?_eq (distinct : rundown.Distinct) (id : Id .item) (f : Item → Item) :
    rundown.modifyItem? id f = (rundown.item? id).map fun r => (r.1.id, rundown.setItem id f) := by
  have alone := distinct.alone_item id
  rw [modifyItem?, changeItems?_eq (alone.map fun _ _ => ()) fun line hl =>
    Acts.modifyFirst ((List.pairwise_flatMap.mp alone).1 line hl)]
  simp only [item?, Line.item?, setItem, decide_eq_true_eq, ← List.findSome?_guard,
    List.map_findSome?, Option.map_map, Function.comp_def]

theorem modifySegment?_eq (distinct : rundown.Distinct) (id : Id .segment) (index : Nat)
    (line : Line) :
    (rundown.modifySegment? id fun segment => segment.insertAt index line) =
      (rundown.segment? id).map fun _ => rundown.withLine id index line := by
  have hmade : { rundown with
      segments := rundown.segments.map fun segment =>
        if segment.id = id then segment.insertAt index line else segment } =
      rundown.withLine id index line := by
    refine congrArg (fun segments => { rundown with segments }) (List.map_congr_left fun s _ => ?_)
    beta_reduce
    split
    · rw [Segment.insertAt, insertIdx_min]
    · rfl
  have acts := Acts.modifyFirst (f := fun segment => segment.insertAt index line)
    (alone_guard distinct.segments id)
  have hchange := congrArg (Option.map fun r => { rundown with segments := r.2 }) acts.result
  simp only [← hmade, segment?, modifySegment?, decide_eq_true_eq, ← List.findSome?_guard,
    List.map_findSome?, Option.map_map, Function.comp_def] at hchange ⊢
  exact hchange

end Rundown

namespace Change

variable {rundown : Rundown}

theorem apply_onItem (distinct : rundown.Distinct) (id : Id .item)
    (check : Item → Except Fault Unit) (f : Item → Item) :
    (onItem id check f).apply rundown =
      match rundown.item? id with
      | none => (.error (.notFound id.name), rundown)
      | some (line, item) =>
        match check item with
        | .error fault => (.error fault, rundown)
        | .ok () => (.ok line.id, rundown.setItem id f) := by
  rw [onItem, bind_of_ok (apply_get rundown)]
  cases hitem : rundown.item? id with
  | none =>
    rw [apply_update, Rundown.modifyItem?_eq distinct, hitem]
    rfl
  | some found =>
    dsimp only
    rw [apply_bind, apply_ofExcept]
    cases check found.2 with
    | error fault => rfl
    | ok =>
      dsimp only
      rw [apply_update, Rundown.modifyItem?_eq distinct, hitem]
      rfl

theorem apply_onLine (distinct : rundown.Distinct) (id : Id .line) (f : Line → Line) :
    (onLine id f).apply rundown =
      match rundown.line? id with
      | none => (.error (.notFound id.name), rundown)
      | some _ => (.ok (), rundown.setLine id f) := by
  rw [onLine, apply_update, Rundown.modifyLine?_eq distinct]
  cases rundown.line? id <;> rfl

theorem apply_removeItem (distinct : rundown.Distinct) (id : Id .item) :
    (removeItem id).apply rundown =
      match rundown.item? id with
      | none => (.error (.notFound id.name), rundown)
      | some (line, item) => (.ok (line.id, item), rundown.withoutItem id) := by
  rw [removeItem, apply_update, Rundown.takeItem?_eq distinct]
  cases rundown.item? id <;> rfl

theorem apply_removeLine (distinct : rundown.Distinct) (id : Id .line) :
    (removeLine id).apply rundown =
      match rundown.line? id with
      | none => (.error (.notFound id.name), rundown)
      | some line => (.ok line, rundown.withoutLine id) := by
  rw [removeLine, apply_update, Rundown.takeLine?_eq distinct]
  cases rundown.line? id <;> rfl

theorem apply_insertLine (distinct : rundown.Distinct) (id : Id .segment) (index : Nat)
    (line : Line) :
    (insertLine id index line).apply rundown =
      if (rundown.line? line.id).isSome then (.error (.duplicate line.id.name), rundown)
      else match rundown.segment? id with
        | none => (.error (.notFound id.name), rundown)
        | some _ => (.ok (), rundown.withLine id index line) := by
  rw [insertLine, bind_of_ok (apply_get rundown)]
  split
  · rfl
  · rw [apply_update, Rundown.modifySegment?_eq distinct]
    cases rundown.segment? id <;> rfl

theorem apply_moveLine (distinct : rundown.Distinct) (id : Id .line) (segment : Id .segment)
    (index : Nat) :
    (moveLine id segment index).apply rundown =
      match rundown.segment? segment with
      | none => (.error (.notFound segment.name), rundown)
      | some _ =>
        match rundown.line? id with
        | none => (.error (.notFound id.name), rundown)
        | some line => (.ok (), (rundown.withoutLine id).withLine segment index line) := by
  rw [moveLine, bind_of_ok (apply_get rundown)]
  cases hsegment : rundown.segment? segment with
  | none => rfl
  | some found =>
    change (removeLine id >>= _).apply rundown = _
    rw [apply_bind, apply_removeLine distinct]
    cases hline : rundown.line? id with
    | none => rfl
    | some line =>
      dsimp only
      have hkept : ((rundown.withoutLine id).segment? segment).isSome := by
        rw [Rundown.isSome_segment?_withoutLine, hsegment]
        rfl
      obtain ⟨target, htarget⟩ := Option.isSome_iff_exists.mp hkept
      rw [apply_insertLine (distinct.withoutLine id), (Rundown.mem_of_line? hline).2,
        Rundown.line?_withoutLine, htarget]
      rfl

theorem apply_locate (distinct : rundown.Distinct) (line : Id .line) (absent : Fault) :
    (locate line absent).apply rundown =
      match RunningOrder.index? ⟨rundown.spots⟩ line with
      | none => (.error absent, rundown)
      | some index => (.ok (⟨rundown.spots⟩, index), rundown) := by
  rw [locate, bind_of_ok (apply_get rundown), Rundown.order_of_distinct distinct,
    bind_of_ok (apply_ofExcept ..)]
  cases RunningOrder.index? ⟨rundown.spots⟩ line <;> rfl

end Change

namespace Edit

/-- What an edit makes of a rundown, in which it finds all that it names. -/
def made : Edit → Rundown → Rundown
  | setItemDuration id duration, rundown => rundown.setItem id fun item => { item with duration }
  | setItemReach id reach, rundown => rundown.setItem id fun item => { item with reach }
  | setItemContent id content, rundown => rundown.setItem id fun item => { item with content }
  | insertItem id item, rundown =>
    rundown.setLine id fun line => { line with items := line.items ++ [item] }
  | removeItem id, rundown => rundown.withoutItem id
  | setLineDuration id duration, rundown => rundown.setLine id fun line => { line with duration }
  | insertLine segment index line, rundown => rundown.withLine segment index.toNat line
  | removeLine id, rundown => rundown.withoutLine id
  | moveLine id segment index, rundown =>
    match rundown.line? id with
    | none => rundown
    | some line => (rundown.withoutLine id).withLine segment index.toNat line
  | recompute .., rundown => rundown

def Refers : Edit → Rundown → Prop
  | setItemDuration id _, rundown | setItemReach id _, rundown | setItemContent id _, rundown
  | removeItem id, rundown => (rundown.item? id).isSome
  | insertItem line _, rundown | setLineDuration line _, rundown | removeLine line, rundown =>
    (rundown.line? line).isSome
  | insertLine segment _ _, rundown => (rundown.segment? segment).isSome
  | moveLine line segment _, rundown =>
    (rundown.line? line).isSome ∧ (rundown.segment? segment).isSome
  | recompute start _, rundown => ∀ line ∈ start, (rundown.line? line).isSome

end Edit

end OnAir
