import Mathlib.Data.List.Basic
import OnAir.Rundown.Change

set_option autoImplicit false

namespace OnAir

section Lists

variable {α β : Type} {l l' : List α}

theorem changeFirst?_eq_some {f : α → Option (β × α)} {b : β}
    (h : changeFirst? f l = some (b, l')) :
    ∃ before x y after, (∀ z ∈ before, f z = none) ∧ f x = some (b, y) ∧
      l = before ++ x :: after ∧ l' = before ++ y :: after := by
  induction l generalizing l' with
  | nil => exact nomatch h
  | cons x rest ih =>
    rw [changeFirst?] at h
    cases hx : f x with
    | some found =>
      obtain ⟨b', y⟩ := found
      rw [hx] at h
      obtain ⟨rfl, rfl⟩ := Prod.mk.inj (Option.some.inj h)
      exact ⟨[], x, y, rest, fun _ hm => absurd hm List.not_mem_nil, hx, rfl, rfl⟩
    | none =>
      rw [hx] at h
      obtain ⟨⟨b', rest'⟩, hrest, heq⟩ := Option.map_eq_some_iff.mp h
      obtain ⟨rfl, rfl⟩ := Prod.mk.inj heq
      obtain ⟨before, z, y, after, hbefore, hz, rfl, rfl⟩ := ih hrest
      exact ⟨x :: before, z, y, after, List.forall_mem_cons.mpr ⟨hx, hbefore⟩, hz, rfl, rfl⟩

theorem changeFirst?_eq_none_iff {f : α → Option (β × α)} :
    changeFirst? f l = none ↔ ∀ x ∈ l, f x = none := by
  induction l with
  | nil => exact ⟨fun _ _ hm => absurd hm List.not_mem_nil, fun _ => rfl⟩
  | cons x rest ih =>
    rw [List.forall_mem_cons, ← ih, changeFirst?]
    cases f x with
    | some found => exact ⟨fun h => (nomatch h), fun h => (nomatch h.1)⟩
    | none => rw [Option.map_eq_none_iff, eq_self, true_and]

theorem modifyFirst?_eq_some {p : α → Bool} {f : α → α} (h : modifyFirst? p f l = some l') :
    ∃ before x after, (∀ z ∈ before, ¬ p z = true) ∧ p x = true ∧ l = before ++ x :: after ∧
      l' = before ++ f x :: after := by
  obtain ⟨⟨_, found⟩, hchange, rfl⟩ := Option.map_eq_some_iff.mp h
  obtain ⟨before, x, y, after, hbefore, hx, rfl, rfl⟩ := changeFirst?_eq_some hchange
  have hnot : ∀ z ∈ before, ¬ p z = true := fun z hz hp =>
    nomatch (if_pos hp).symm.trans (hbefore z hz)
  split at hx
  · next hp =>
    obtain ⟨-, rfl⟩ := Prod.mk.inj (Option.some.inj hx)
    exact ⟨before, x, after, hnot, hp, rfl, rfl⟩
  · exact nomatch hx

theorem modifyFirst?_eq_none_iff {p : α → Bool} {f : α → α} :
    modifyFirst? p f l = none ↔ ∀ x ∈ l, ¬ p x = true := by
  rw [modifyFirst?, Option.map_eq_none_iff, changeFirst?_eq_none_iff]
  refine forall₂_congr fun x _ => ?_
  rw [ite_eq_right_iff]
  exact ⟨fun h hp => (nomatch h hp), fun h hp => absurd hp h⟩

theorem takeFirst?_eq_some {p : α → Bool} {x : α} (h : takeFirst? p l = some (x, l')) :
    ∃ before after, (∀ z ∈ before, ¬ p z = true) ∧ p x = true ∧ l = before ++ x :: after ∧
      l' = before ++ after := by
  obtain ⟨y, hy, heq⟩ := Option.map_eq_some_iff.mp h
  obtain ⟨rfl, rfl⟩ := Prod.mk.inj heq
  obtain ⟨hp, before, after, rfl, hbefore⟩ := List.find?_eq_some_iff_append.mp hy
  have hnot : ∀ z ∈ before, ¬ p z = true := fun z hz => by simpa using hbefore z hz
  refine ⟨before, after, hnot, hp, rfl, ?_⟩
  rw [List.eraseP_append_right _ hnot, List.eraseP_cons_of_pos hp]

theorem takeFirst?_eq_none_iff {p : α → Bool} : takeFirst? p l = none ↔ ∀ x ∈ l, ¬ p x = true := by
  rw [takeFirst?, Option.map_eq_none_iff, List.find?_eq_none]

end Lists

namespace Rundown

variable {rundown changed : Rundown} {β : Type} {b : β}

structure SameFrame (rundown changed : Rundown) : Prop where
  layers : changed.layerIds = rundown.layerIds
  segments : changed.segments.map (·.id) = rundown.segments.map (·.id)

theorem SameFrame.symm (h : rundown.SameFrame changed) : changed.SameFrame rundown :=
  ⟨h.layers.symm, h.segments.symm⟩

theorem SameFrame.trans {last : Rundown} (h : rundown.SameFrame changed)
    (h' : changed.SameFrame last) : rundown.SameFrame last :=
  ⟨h'.layers.trans h.layers, h'.segments.trans h.segments⟩

theorem spots_of_relined {before after : List Segment} {segment : Segment}
    (h : rundown.segments = before ++ segment :: after) (lines : List Line) :
    let changed := { rundown with segments := before ++ { segment with lines } :: after }
    rundown.SameFrame changed ∧
      rundown.spots = before.flatMap Segment.spots ++
        (segment.lines.map (Spot.mk segment.id) ++ after.flatMap Segment.spots) ∧
      changed.spots = before.flatMap Segment.spots ++
        (lines.map (Spot.mk segment.id) ++ after.flatMap Segment.spots) := by
  refine ⟨⟨rfl, ?_⟩, ?_, ?_⟩
  · rw [h, List.map_append, List.map_append]
    rfl
  · rw [spots, h, List.flatMap_append, List.flatMap_cons]
    rfl
  · rw [spots, List.flatMap_append, List.flatMap_cons]
    rfl

theorem changeLines?_eq_some {f : List Line → Option (β × List Line)}
    (h : rundown.changeLines? f = some (b, changed)) :
    ∃ before segment lines after, (∀ earlier ∈ before, f earlier.lines = none) ∧
      f segment.lines = some (b, lines) ∧ rundown.segments = before ++ segment :: after ∧
      changed = { rundown with segments := before ++ { segment with lines } :: after } := by
  obtain ⟨⟨b', segments⟩, hchange, heq⟩ := Option.map_eq_some_iff.mp h
  obtain ⟨rfl, rfl⟩ := Prod.mk.inj heq
  obtain ⟨before, segment, other, after, hbefore, hf, hsegments, rfl⟩ := changeFirst?_eq_some hchange
  obtain ⟨⟨b'', lines⟩, hlines, heq⟩ := Option.map_eq_some_iff.mp hf
  obtain ⟨rfl, rfl⟩ := Prod.mk.inj heq
  exact ⟨before, segment, lines, after,
    fun earlier hm => Option.map_eq_none_iff.mp (hbefore earlier hm), hlines, hsegments, rfl⟩

theorem changeLines?_eq_none_iff {f : List Line → Option (β × List Line)} :
    rundown.changeLines? f = none ↔ ∀ segment ∈ rundown.segments, f segment.lines = none := by
  rw [changeLines?, Option.map_eq_none_iff, changeFirst?_eq_none_iff]
  simp only [Option.map_eq_none_iff]

structure LineChanged (rundown changed : Rundown) (id : Id .line) : Prop where
  frame : rundown.SameFrame changed
  place : ∃ before spot line after, spot.line.id = id ∧ line.id = id ∧
    rundown.spots = before ++ spot :: after ∧ changed.spots = before ++ { spot with line } :: after

theorem changeLine?_eq_some {f : Line → Option (β × Line)}
    (h : rundown.changeLines? (changeFirst? f) = some (b, changed)) :
    rundown.SameFrame changed ∧
      ∃ before spot line after, f spot.line = some (b, line) ∧
        rundown.spots = before ++ spot :: after ∧
        changed.spots = before ++ { spot with line } :: after := by
  obtain ⟨before, segment, lines, after, -, hf, hsegments, rfl⟩ := changeLines?_eq_some h
  obtain ⟨first, line, line', last, -, hline, hlines, rfl⟩ := changeFirst?_eq_some hf
  obtain ⟨frame, hs, hs'⟩ := spots_of_relined hsegments (first ++ line' :: last)
  refine ⟨frame, before.flatMap Segment.spots ++ first.map (Spot.mk segment.id),
    ⟨segment.id, line⟩, line', last.map (Spot.mk segment.id) ++ after.flatMap Segment.spots, hline,
    ?_, ?_⟩
  · rw [hs, hlines]
    simp
  · rw [hs']
    simp

theorem changeItems?_eq_some {f : List Item → Option (β × List Item)} {line : Id .line}
    (h : rundown.changeItems? f = some ((line, b), changed)) : rundown.LineChanged changed line := by
  obtain ⟨frame, before, spot, line', after, hline, hs, hs'⟩ := changeLine?_eq_some h
  obtain ⟨⟨b', items⟩, -, heq⟩ := Option.map_eq_some_iff.mp hline
  obtain ⟨hid, rfl⟩ := Prod.mk.inj heq
  have hline : spot.line.id = line := congrArg Prod.fst hid
  exact ⟨frame, before, spot, { spot.line with items }, after, hline, hline, hs, hs'⟩

theorem modifyItem?_eq_some {id : Id .item} {f : Item → Item} {line : Id .line}
    (h : rundown.modifyItem? id f = some (line, changed)) : rundown.LineChanged changed line := by
  obtain ⟨⟨⟨line', b⟩, changed'⟩, hchange, heq⟩ := Option.map_eq_some_iff.mp h
  obtain ⟨rfl, rfl⟩ := Prod.mk.inj heq
  exact changeItems?_eq_some hchange

theorem takeItem?_eq_some {id : Id .item} {line : Id .line} {item : Item}
    (h : rundown.takeItem? id = some ((line, item), changed)) : rundown.LineChanged changed line :=
  changeItems?_eq_some h

theorem modifyLine?_eq_some {id : Id .line} {f : Line → Line} (hf : ∀ line, (f line).id = line.id)
    (h : rundown.modifyLine? id f = some changed) : rundown.LineChanged changed id := by
  obtain ⟨⟨_, changed'⟩, hchange, rfl⟩ := Option.map_eq_some_iff.mp h
  obtain ⟨before, segment, lines, after, -, hlines, hsegments, rfl⟩ := changeLines?_eq_some hchange
  obtain ⟨lines', hmodify, heq⟩ := Option.map_eq_some_iff.mp hlines
  obtain ⟨-, rfl⟩ := Prod.mk.inj heq
  obtain ⟨first, line, last, -, hid, hsplit, rfl⟩ := modifyFirst?_eq_some hmodify
  obtain ⟨frame, hs, hs'⟩ := spots_of_relined hsegments (first ++ f line :: last)
  refine ⟨frame, before.flatMap Segment.spots ++ first.map (Spot.mk segment.id),
    ⟨segment.id, line⟩, f line, last.map (Spot.mk segment.id) ++ after.flatMap Segment.spots,
    of_decide_eq_true hid, (hf line).trans (of_decide_eq_true hid), ?_, ?_⟩
  · rw [hs, hsplit]
    simp
  · rw [hs']
    simp

structure ExtendedBy (rundown extended : Rundown) (line : Line) : Prop where
  frame : rundown.SameFrame extended
  place : ∃ before segment after,
    rundown.spots = before ++ after ∧ extended.spots = before ++ ⟨segment, line⟩ :: after

/-- The first segment with an identifier gets a line, behind as many of its lines as the index says,
or behind all of them. -/
def LinePut (rundown : Rundown) (id : Id .segment) (index : Nat) (line : Line)
    (changed : Rundown) : Prop :=
  ∃ before segment after, (∀ earlier ∈ before, earlier.id ≠ id) ∧ segment.id = id ∧
    rundown.segments = before ++ segment :: after ∧
    changed = { rundown with segments := before ++ { segment with
      lines := segment.lines.take (min index segment.lines.length) ++
        line :: segment.lines.drop (min index segment.lines.length) } :: after }

def LineTaken (rundown : Rundown) (line : Line) (changed : Rundown) : Prop :=
  ∃ before segment after first last,
    (∀ earlier ∈ before.flatMap Segment.lines ++ first, earlier.id ≠ line.id) ∧
    rundown.segments = before ++ segment :: after ∧ segment.lines = first ++ line :: last ∧
    changed = { rundown with
      segments := before ++ { segment with lines := first ++ last } :: after }

section Lines

variable {id : Id .line} {segment : Id .segment} {index : Nat} {line : Line}

theorem LinePut.extendedBy (h : rundown.LinePut segment index line changed) :
    rundown.ExtendedBy changed line := by
  obtain ⟨before, held, after, -, -, hsplit, rfl⟩ := h
  have hlines := List.take_append_drop (min index held.lines.length) held.lines
  obtain ⟨frame, hs, hs'⟩ := spots_of_relined hsplit _
  refine ⟨frame, before.flatMap Segment.spots ++
    (held.lines.take (min index held.lines.length)).map (Spot.mk held.id), held.id,
    (held.lines.drop (min index held.lines.length)).map (Spot.mk held.id) ++
      after.flatMap Segment.spots, ?_, ?_⟩
  · rw [hs, List.append_assoc, ← List.append_assoc (List.map _ _), ← List.map_append, hlines]
  · rw [hs']
    simp

theorem LinePut.mem_segments (h : rundown.LinePut segment index line changed) :
    segment ∈ rundown.segments.map (·.id) := by
  obtain ⟨before, held, after, -, rfl, hsplit, -⟩ := h
  rw [hsplit]
  exact List.mem_map_of_mem (List.mem_append_right before List.mem_cons_self)

theorem LineTaken.extendedBy (h : rundown.LineTaken line changed) :
    changed.ExtendedBy rundown line := by
  obtain ⟨before, held, after, first, last, -, hsegments, hsplit, rfl⟩ := h
  obtain ⟨frame, hs, hs'⟩ := spots_of_relined hsegments (first ++ last)
  refine ⟨frame.symm, before.flatMap Segment.spots ++ first.map (Spot.mk held.id), held.id,
    last.map (Spot.mk held.id) ++ after.flatMap Segment.spots, ?_, ?_⟩
  · rw [hs']
    simp
  · rw [hs, hsplit]
    simp

theorem takeLine?_eq_some (h : rundown.takeLine? id = some (line, changed)) :
    line.id = id ∧ rundown.LineTaken line changed := by
  obtain ⟨before, held, lines, after, hbefore, hlines, hsegments, rfl⟩ := changeLines?_eq_some h
  obtain ⟨first, last, hfirst, hid, hsplit, rfl⟩ := takeFirst?_eq_some hlines
  obtain rfl := of_decide_eq_true hid
  refine ⟨rfl, before, held, after, first, last, ?_, hsegments, hsplit, rfl⟩
  refine List.forall_mem_append.mpr ⟨fun earlier hm => ?_, fun earlier hm heq => ?_⟩
  · obtain ⟨other, ho, hm⟩ := List.mem_flatMap.mp hm
    exact fun heq => takeFirst?_eq_none_iff.mp (hbefore other ho) earlier hm (decide_eq_true heq)
  · exact hfirst earlier hm (decide_eq_true heq)

theorem takeLine?_eq_none_iff :
    rundown.takeLine? id = none ↔ id ∉ rundown.lines.map (·.id) := by
  rw [takeLine?, changeLines?_eq_none_iff, lines, List.mem_map]
  simp only [takeFirst?_eq_none_iff, decide_eq_true_eq, List.mem_flatMap]
  constructor
  · rintro h ⟨line, ⟨held, hs, hl⟩, hid⟩
    exact h held hs line hl hid
  · exact fun h held hs line hl hid => h ⟨line, ⟨held, hs, hl⟩, hid⟩

theorem insertAt_eq_some
    (h : (rundown.modifySegment? segment fun held => held.insertAt index line) = some changed) :
    rundown.LinePut segment index line changed := by
  obtain ⟨segments, hsegments, rfl⟩ := Option.map_eq_some_iff.mp h
  obtain ⟨before, held, after, hbefore, hid, hsplit, rfl⟩ := modifyFirst?_eq_some hsegments
  refine ⟨before, held, after, fun earlier hm heq => hbefore earlier hm (decide_eq_true heq),
    of_decide_eq_true hid, hsplit, ?_⟩
  rw [Segment.insertAt, ← List.take_eq_take_min, ← List.drop_eq_drop_min]

theorem modifySegment?_eq_none_iff {f : Segment → Segment} :
    rundown.modifySegment? segment f = none ↔ segment ∉ rundown.segments.map (·.id) := by
  rw [modifySegment?, Option.map_eq_none_iff, modifyFirst?_eq_none_iff, List.mem_map]
  simp only [decide_eq_true_eq]
  exact ⟨fun h ⟨held, hs, hid⟩ => h held hs hid, fun h held hs hid => h ⟨held, hs, hid⟩⟩

end Lines

end Rundown

namespace Change

variable {α β : Type} {rundown last : Rundown} {fault : Fault}

theorem bind_ok {c : Change α} {f : α → Change β} {b : β}
    (h : (c >>= f).apply rundown = (.ok b, last)) :
    ∃ a changed, c.apply rundown = (.ok a, changed) ∧ (f a).apply changed = (.ok b, last) := by
  rw [apply_bind] at h
  cases hc : c.apply rundown with
  | mk answer changed =>
    rw [hc] at h
    cases answer with
    | error fault => exact nomatch congrArg Prod.fst h
    | ok a => exact ⟨a, changed, rfl, h⟩

theorem pure_ok {a b : α} (h : (pure a : Change α).apply rundown = (.ok b, last)) :
    a = b ∧ rundown = last := by
  rw [apply_pure] at h
  obtain ⟨ha, hr⟩ := Prod.mk.inj h
  exact ⟨Except.ok.inj ha, hr⟩

theorem map_ok {c : Change α} {f : α → β} {b : β}
    (h : (c >>= fun a => pure (f a)).apply rundown = (.ok b, last)) :
    ∃ a, c.apply rundown = (.ok a, last) ∧ f a = b := by
  obtain ⟨a, changed, hc, h⟩ := bind_ok h
  obtain ⟨rfl, rfl⟩ := pure_ok h
  exact ⟨a, hc, rfl⟩

theorem bind_of_ok {c : Change α} {a : α} (h : c.apply rundown = (.ok a, last))
    (f : α → Change β) : (c >>= f).apply rundown = (f a).apply last := by
  rw [apply_bind, h]

theorem throw_ok {a : α} (h : (throw fault : Change α).apply rundown = (.ok a, last)) : False := by
  rw [apply_throw] at h
  exact nomatch congrArg Prod.fst h

theorem apply_get (rundown : Rundown) :
    (get : Change Rundown).apply rundown = (.ok rundown, rundown) := rfl

theorem apply_ofExcept (e : Except Fault α) (rundown : Rundown) :
    (MonadExcept.ofExcept e : Change α).apply rundown = (e, rundown) := by cases e <;> rfl

theorem get_ok {r : Rundown} (h : (get : Change Rundown).apply rundown = (.ok r, last)) :
    r = rundown ∧ rundown = last := by
  obtain ⟨hr, hl⟩ := Prod.mk.inj h
  exact ⟨(Except.ok.inj hr).symm, hl⟩

theorem ofExcept_ok {e : Except Fault α} {a : α}
    (h : (MonadExcept.ofExcept e : Change α).apply rundown = (.ok a, last)) :
    e = .ok a ∧ rundown = last := by
  cases e with
  | error fault => exact (throw_ok h).elim
  | ok b =>
    obtain ⟨rfl, hr⟩ := pure_ok h
    exact ⟨rfl, hr⟩

theorem update_ok {f : Rundown → Option (α × Rundown)} {a : α}
    (h : (update fault f).apply rundown = (.ok a, last)) : f rundown = some (a, last) := by
  rw [apply_update] at h
  cases hf : f rundown with
  | none =>
    rw [hf] at h
    exact nomatch congrArg Prod.fst h
  | some found =>
    rw [hf] at h
    obtain ⟨ha, hl⟩ := Prod.mk.inj h
    exact congrArg some (Prod.ext (Except.ok.inj ha) hl)

end Change

end OnAir
