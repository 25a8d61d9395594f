import OnAir.Proofs.Acceptance

set_option autoImplicit false

namespace OnAir

theorem map_eq_self {α : Type} {f : α → α} {l : List α} (h : ∀ x ∈ l, f x = x) : l.map f = l :=
  (List.map_congr_left h).trans (List.map_id l)

variable {rundown : Rundown} {edit undo : Edit}

namespace Rundown

theorem reline_reline (rundown : Rundown) (f g : Segment → List Line) :
    (rundown.reline f).reline g =
      rundown.reline fun segment => g { segment with lines := f segment } := by
  rw [reline, reline, reline, List.map_map]
  rfl

theorem reline_eq_self {f : Segment → List Line}
    (h : ∀ segment ∈ rundown.segments, f segment = segment.lines) : rundown.reline f = rundown := by
  have hsegments : rundown.segments.map (fun segment => { segment with lines := f segment }) =
      rundown.segments := map_eq_self fun segment hs => by rw [h segment hs]
  rw [reline, hsegments]

theorem eachLine_eq_self {f : Line → Line} (h : ∀ line ∈ rundown.lines, f line = line) :
    rundown.eachLine f = rundown :=
  reline_eq_self fun _ hs => map_eq_self fun line hl => h line (List.mem_flatMap_of_mem hs hl)

theorem setItem_setItem_eq_self (distinct : rundown.Distinct) {id : Id .item} {line : Line}
    {item : Item} (hfound : rundown.item? id = some (line, item)) {f g : Item → Item}
    (hid : (f item).id = id) (hback : g (f item) = item) :
    (rundown.setItem id f).setItem id g = rundown := by
  refine (rundown.eachLine_eachLine _ _).trans (eachLine_eq_self fun owner ho => ?_)
  have hitems : (owner.items.map fun item => if item.id = id then f item else item).map
      (fun item => if item.id = id then g item else item) = owner.items := by
    rw [List.map_map]
    refine map_eq_self fun other hi => ?_
    rw [Function.comp_apply]
    -- No other item has the identifier, so the one that is changed back is the one that was found.
    by_cases hother : other.id = id
    · have hsame := distinct.item?_of_mem ho hi
      rw [hother, hfound] at hsame
      obtain ⟨-, rfl⟩ := Prod.mk.inj (Option.some.inj hsame)
      rw [if_pos hother, if_pos hid, hback]
    · rw [if_neg hother, if_neg hother]
  exact congrArg (fun items => { owner with items }) hitems

theorem setLine_setLine_eq_self (distinct : rundown.Distinct) {id : Id .line} {line : Line}
    (hfound : rundown.line? id = some line) {f g : Line → Line} (hid : (f line).id = id)
    (hback : g (f line) = line) : (rundown.setLine id f).setLine id g = rundown := by
  refine (rundown.eachLine_eachLine _ _).trans (eachLine_eq_self fun other hl => ?_)
  by_cases hother : other.id = id
  · have hsame := distinct.line?_of_mem hl
    rw [hother, hfound] at hsame
    obtain rfl := Option.some.inj hsame
    rw [if_pos hother, if_pos hid, hback]
  · rw [if_neg hother, if_neg hother]

theorem withoutItem_setLine_eq_self {item : Item} (h : rundown.item? item.id = none) (id : Id .line) :
    (rundown.setLine id fun line => { line with items := line.items ++ [item] }).withoutItem item.id =
      rundown := by
  refine (rundown.eachLine_eachLine _ _).trans (eachLine_eq_self fun line hl => ?_)
  have hnone : line.item? item.id = none :=
    Option.map_eq_none_iff.mp (List.findSome?_eq_none_iff.mp h line hl)
  have hkept : line.items.filter (fun other => other.id ≠ item.id) = line.items :=
    List.filter_eq_self.mpr fun other hi => by simpa using List.find?_eq_none.mp hnone other hi
  by_cases hline : line.id = id
  · rw [if_pos hline, List.filter_append, hkept, List.filter_cons_of_neg (by simp), List.filter_nil,
      List.append_nil]
  · rw [if_neg hline, hkept]

theorem withoutLine_withLine (rundown : Rundown) (id : Id .segment) (index : Nat) (line : Line) :
    (rundown.withLine id index line).withoutLine line.id = rundown.withoutLine line.id := by
  rw [withoutLine, withLine, reline_reline, withoutLine]
  refine congrArg rundown.reline (funext fun segment => ?_)
  split
  · rw [insertIdx_min, List.filter_append, List.filter_cons_of_neg (by simp), ← List.filter_append,
      List.take_append_drop]
  · rfl

theorem withoutLine_eq_self {id : Id .line} (h : rundown.line? id = none) :
    rundown.withoutLine id = rundown := by
  refine reline_eq_self fun segment hs => filter_line_eq_self fun line hl => ?_
  simpa using List.find?_eq_none.mp h line (List.mem_flatMap_of_mem hs hl)

theorem withoutLine_withoutLine (rundown : Rundown) (id : Id .line) :
    (rundown.withoutLine id).withoutLine id = rundown.withoutLine id :=
  withoutLine_eq_self (rundown.line?_withoutLine id)

theorem withLine_withoutLine_eq_self (distinct : rundown.Distinct) {source : Segment}
    (hs : source ∈ rundown.segments) {index : Nat} {line : Line}
    (hl : source.lines[index]? = some line) :
    (rundown.withoutLine line.id).withLine source.id index line = rundown := by
  have hmem : line ∈ source.lines := List.mem_of_getElem? hl
  rw [withLine, withoutLine, reline_reline]
  refine reline_eq_self fun segment hsegment => ?_
  -- The line goes from its own segment and comes back there. No other segment has it, or that identifier.
  by_cases hsource : segment = source
  · subst hsource
    obtain ⟨hsplit, hlength⟩ := split_of_getElem? hl
    have hnodup : (segment.lines.map (·.id)).Nodup := by
      have hlines := distinct.lines
      rw [lines, List.map_flatMap] at hlines
      exact (List.nodup_flatMap.mp hlines).1 segment hs
    rw [hsplit, List.map_append, List.map_cons, List.perm_middle.nodup_iff, List.nodup_cons,
      ← List.map_append] at hnodup
    have hothers : segment.lines.filter (fun other => other.id ≠ line.id) =
        segment.lines.take index ++ segment.lines.drop (index + 1) := by
      conv_lhs => rw [hsplit]
      rw [filter_line_append_cons]
      refine filter_line_eq_self fun other ho heq => hnodup.1 ?_
      exact heq ▸ List.mem_map_of_mem ho
    rw [if_pos rfl, insertIdx_min, hothers, List.take_left' hlength, List.drop_left' hlength]
    exact hsplit.symm
  · have hid : segment.id ≠ source.id := fun heq =>
      hsource (List.inj_on_of_nodup_map distinct.segments hsegment hs heq)
    rw [if_neg hid]
    refine filter_line_eq_self fun other ho heq => hsource ?_
    have hlines := distinct.lines
    rw [lines, List.map_flatMap] at hlines
    exact eq_of_mem_flatMap hlines hsegment hs (List.mem_map_of_mem ho) (heq ▸ List.mem_map_of_mem hmem)

/-- A line that is moved to wherever and put in again where it stood. -/
theorem withLine_moved_eq_self (distinct : rundown.Distinct) {source : Segment}
    (hs : source ∈ rundown.segments) {index : Nat} {line : Line}
    (hl : source.lines[index]? = some line) (id : Id .segment) (target : Nat) :
    (((rundown.withoutLine line.id).withLine id target line).withoutLine line.id).withLine source.id
      index line = rundown := by
  rw [withoutLine_withLine, withoutLine_withoutLine]
  exact withLine_withoutLine_eq_self distinct hs hl

theorem isSome_item? {line : Line} (hl : line ∈ rundown.lines) {item : Item} (hi : item ∈ line.items) :
    (rundown.item? item.id).isSome := by
  rw [item?, List.findSome?_isSome_iff]
  refine ⟨line, hl, ?_⟩
  rw [Option.isSome_map, Line.item?, List.find?_isSome]
  exact ⟨item, hi, decide_eq_true rfl⟩

theorem isSome_item?_setItem {id : Id .item} {line : Line} {item : Item}
    (hfound : rundown.item? id = some (line, item)) {f : Item → Item} (hid : (f item).id = id) :
    ((rundown.setItem id f).item? id).isSome := by
  obtain ⟨hline, hitem, rfl⟩ := mem_of_item? hfound
  obtain ⟨_, hline', hitem'⟩ := mem_setItem hline hitem f
  exact hid ▸ isSome_item? hline' hitem'

end Rundown

namespace Edit

/-- The edit that takes another back, which is to be made in a rundown. -/
inductive Undoes (rundown : Rundown) : Edit → Edit → Prop
  | setItemDuration {id : Id .item} {line : Line} {item : Item} (duration : Int64)
      (found : rundown.item? id = some (line, item)) :
      Undoes rundown (.setItemDuration id item.duration) (.setItemDuration id duration)
  | setItemReach {id : Id .item} {line : Line} {item : Item} (reach : Reach)
      (found : rundown.item? id = some (line, item)) :
      Undoes rundown (.setItemReach id item.reach) (.setItemReach id reach)
  | setItemContent {id : Id .item} {line : Line} {item : Item} (content : Content)
      (found : rundown.item? id = some (line, item)) :
      Undoes rundown (.setItemContent id item.content) (.setItemContent id content)
  | setLineDuration {id : Id .line} {line : Line} (duration : UInt64)
      (found : rundown.line? id = some line) :
      Undoes rundown (.setLineDuration id line.duration) (.setLineDuration id duration)
  | insertItem (line : Id .line) (item : Item) :
      Undoes rundown (.removeItem item.id) (.insertItem line item)
  | insertLine (segment : Id .segment) (index : UInt64) (line : Line) :
      Undoes rundown (.removeLine line.id) (.insertLine segment index line)
  | moveLine {source : Segment} {former : UInt64} {line : Line} (segment : Id .segment)
      (index : UInt64) (mem : source ∈ rundown.segments)
      (found : source.lines[former.toNat]? = some line) :
      Undoes rundown (.moveLine line.id source.id former) (.moveLine line.id segment index)

theorem Undoes.made_made (undoes : Undoes rundown undo edit) (distinct : rundown.Distinct)
    (refers : edit.Refers rundown) (distinct' : (edit.made rundown).Distinct) :
    undo.Refers (edit.made rundown) ∧ undo.made (edit.made rundown) = rundown := by
  cases undoes with
  | setItemDuration duration found | setItemReach reach found | setItemContent content found =>
    have hid := (Rundown.mem_of_item? found).2.2
    exact ⟨Rundown.isSome_item?_setItem found hid,
      Rundown.setItem_setItem_eq_self distinct found hid rfl⟩
  | @setLineDuration id _ duration found =>
    refine ⟨?_, Rundown.setLine_setLine_eq_self distinct found (Rundown.mem_of_line? found).2 rfl⟩
    have hkept := rundown.isSome_line?_setLine id (f := fun line => { line with duration })
      (fun _ => rfl) id
    exact hkept.trans (Option.isSome_of_eq_some found)
  | insertItem id item =>
    obtain ⟨line, hfound⟩ := Option.isSome_iff_exists.mp refers
    obtain ⟨hline, rfl⟩ := Rundown.mem_of_line? hfound
    have hnew := Rundown.item?_eq_none_of_appended distinct' refers
    exact ⟨Rundown.isSome_item? (Rundown.mem_setLine hline _)
        (List.mem_append_right line.items (List.mem_singleton.mpr rfl)),
      Rundown.withoutItem_setLine_eq_self hnew line.id⟩
  | insertLine segment index line =>
    have hnew := Rundown.line?_eq_none_of_inserted distinct distinct' refers
    refine ⟨Rundown.isSome_line?.mpr (List.mem_map_of_mem (Rundown.mem_withLine refers _ _)), ?_⟩
    exact (Rundown.withoutLine_withLine ..).trans (Rundown.withoutLine_eq_self hnew)
  | @moveLine source former line segment index mem found =>
    have hline : line ∈ rundown.lines := List.mem_flatMap_of_mem mem (List.mem_of_getElem? found)
    have hmoved : (Edit.moveLine line.id segment index).made rundown =
        (rundown.withoutLine line.id).withLine segment index.toNat line := by
      rw [made, distinct.line?_of_mem hline]
    rw [hmoved] at distinct' ⊢
    have hback : line ∈ ((rundown.withoutLine line.id).withLine segment index.toNat line).lines := by
      refine Rundown.mem_withLine ?_ index.toNat line
      rw [Rundown.isSome_segment?_withoutLine]
      exact refers.2
    refine ⟨⟨Rundown.isSome_line?.mpr (List.mem_map_of_mem hback), ?_⟩, ?_⟩
    · rw [Rundown.withLine, Rundown.isSome_segment?_reline, Rundown.isSome_segment?_withoutLine]
      exact Rundown.isSome_segment?.mpr (List.mem_map_of_mem mem)
    · rw [made, distinct'.line?_of_mem hback]
      exact Rundown.withLine_moved_eq_self distinct mem found segment index.toNat

end Edit

namespace Session

variable {session : Session} {report : Report}

/-- After an edit, the one that takes it back is accepted, and leaves the rundown that there was before
the two and the same on the board. -/
structure Undone (session : Session) (edit undo : Edit) : Prop where
  accepted : ∃ report, ((session.apply edit .unset).2.apply undo .unset).1 = .ok report
  rundown : ((session.apply edit .unset).2.apply undo .unset).2.rundown = session.rundown
  board : ((session.apply edit .unset).2.apply undo .unset).2.publisher.board.sameLines
    session.publisher.board = true

/-- However a session was edited before, an edit that it accepts can be taken back. -/
theorem accepted_undone {settings : Settings} (h : start rundown settings = .ok session)
    (edits : List (Edit × Token)) (undoes : Edit.Undoes (session.run edits).2.rundown undo edit)
    (hreport : ((session.run edits).2.apply edit .unset).1 = .ok report) :
    (session.run edits).2.Undone edit undo := by
  have coherent : (session.run edits).2.Coherent := run_coherent (start_coherent h) edits
  generalize (session.run edits).2 = here at coherent undoes hreport
  have coherent' : (here.apply edit .unset).2.Coherent := apply_coherent coherent edit .unset
  obtain ⟨refers, sound, hmade⟩ := coherent.made_of_ok hreport
  obtain ⟨refers', hundone⟩ := undoes.made_made coherent.sound.toDistinct refers sound.toDistinct
  rw [← hmade] at refers' hundone
  obtain ⟨report', hreport'⟩ := coherent'.ok_of_made refers' (hundone ▸ coherent.sound)
  have hrundown := (coherent'.made_of_ok hreport').2.2.trans hundone
  have current := (apply_coherent coherent' undo .unset).current
  exact ⟨⟨report', hreport'⟩, hrundown, (hrundown ▸ current).sameLines coherent.current⟩

/-- The weather has gone. The headlines move to the segment that it left empty, far behind its end,
and back to the head of theirs. -/
theorem headlines_move_undone :
    let session : Session := ⟨Rundown.bulletin, (Rundown.bulletin.fullRun .standard).2⟩
    let here := (session.run [(.removeLine ⟨"weather"⟩, .unset)]).2
    let edit : Edit := .moveLine ⟨"headlines"⟩ ⟨"outlook"⟩ 7
    (∃ report, (here.apply edit .unset).1 = .ok report) ∧
      here.Undone edit (.moveLine ⟨"headlines"⟩ ⟨"news"⟩ 0) := by
  intro session here edit
  have coherent : here.Coherent :=
    run_coherent (start_coherent start_bulletin) [(.removeLine ⟨"weather"⟩, .unset)]
  have refers : edit.Refers here.rundown := ⟨by decide +kernel, by decide +kernel⟩
  have sound : (edit.made here.rundown).Sound :=
    ⟨⟨by decide +kernel, by decide +kernel, by decide +kernel, by decide +kernel⟩,
      by decide +kernel, by decide +kernel⟩
  obtain ⟨report, hreport⟩ := coherent.ok_of_made refers sound
  let headlines : Line :=
    ⟨⟨"headlines"⟩, "Headlines", 30000, [⟨⟨"logo"⟩, ⟨"graphics"⟩, 0, .nextItem, .empty⟩]⟩
  let news : Segment := ⟨⟨"news"⟩, "News", [headlines, ⟨⟨"report"⟩, "Report", 90000, []⟩]⟩
  have hnews : news ∈ here.rundown.segments := by decide +kernel
  have hfirst : news.lines[(0 : UInt64).toNat]? = some headlines := rfl
  have undoes : Edit.Undoes here.rundown (.moveLine ⟨"headlines"⟩ ⟨"news"⟩ 0) edit :=
    .moveLine ⟨"outlook"⟩ 7 hnews hfirst
  exact ⟨⟨report, hreport⟩, accepted_undone start_bulletin _ undoes hreport⟩

end Session

end OnAir
