import Mathlib.Data.List.Flatten
import Mathlib.Data.List.Perm.Subperm
import OnAir.Proofs.EarlyStop
import OnAir.Proofs.Edit

set_option autoImplicit false

namespace OnAir

/-- The running order is as it was up to an index. Lines are gone only if they are to be dropped,
and where an update may stop early, it has at most one new line to walk before the old ones. -/
structure Rundown.Reworked (rundown changed : Rundown) (mode : Mode) (index : Nat)
    (removed : List (Id .line)) : Prop where
  layers : changed.layerIds = rundown.layerIds
  kept : ∀ id ∈ rundown.spots.map (·.line.id),
    id ∈ changed.spots.map (·.line.id) ∨ id ∈ removed
  place : ∃ before old new after, rundown.spots = before ++ (old ++ after) ∧
    changed.spots = before ++ (new ++ after) ∧ before.length = index ∧
    (mode = .suffix → new.length ≤ 1)

variable {rundown changed : Rundown} {mode : Mode} {index : Nat} {removed : List (Id .line)}
  {start : Option (Id .line)}

theorem Rundown.Sound.of_subperm (sound : rundown.Sound) (frame : rundown.SameFrame changed)
    (hlines : List.Subperm changed.lines rundown.lines) : changed.Sound := by
  have hsubset := hlines.subset
  obtain ⟨lines, hperm, hsub⟩ := hlines
  refine ⟨⟨frame.layers ▸ sound.layers, frame.segments ▸ sound.segments, ?_, ?_⟩,
    fun line hl => ?_, fun line hl => sound.durations line (hsubset hl)⟩
  · exact (hperm.map _).nodup_iff.mp ((hsub.map _).nodup sound.lines)
  · exact (hperm.flatMap_right _).nodup_iff.mp ((hsub.flatMap _).nodup sound.items)
  · exact frame.layers ▸ sound.registered line (hsubset hl)

theorem Rundown.Sound.of_lastRemoved (sound : rundown.Sound) (frame : rundown.SameFrame changed)
    {before : List Spot} {spot : Spot} (hold : rundown.spots = before ++ [spot])
    (hnew : changed.spots = before) : changed.Sound := by
  refine sound.of_subperm frame ?_
  rw [← spots_map_line, ← spots_map_line, hold, hnew, List.map_append]
  exact (List.sublist_append_left ..).subperm

namespace Publisher

theorem startIndex_le {spots : List Spot} (h : startIndex ⟨spots⟩ start = .ok index) :
    index ≤ spots.length := by
  cases start with
  | none =>
    obtain rfl := Except.ok.inj h
    exact Nat.zero_le _
  | some id =>
    rw [startIndex] at h
    cases hi : RunningOrder.index? ⟨spots⟩ id with
    | none =>
      rw [hi] at h
      cases h
    | some found =>
      rw [hi] at h
      obtain rfl := Except.ok.inj h
      obtain ⟨before, spot, after, rfl, rfl, -⟩ := RunningOrder.split_of_index? hi
      rw [List.length_append]
      omega

theorem length_of_startIndex (distinct : rundown.Distinct) {before after : List Spot} {spot : Spot}
    (hs : rundown.spots = before ++ spot :: after)
    (h : startIndex ⟨rundown.spots⟩ (some spot.line.id) = .ok index) : before.length = index := by
  rw [hs, startIndex_of_split (distinct.lineIds_nodup hs)] at h
  exact Except.ok.inj h

end Publisher

open Publisher in
theorem Edit.Effect.reworked (h : Effect rundown changed (.recompute start mode removed))
    (distinct : changed.Distinct) (hi : startIndex ⟨changed.spots⟩ start = .ok index) :
    rundown.Reworked changed mode index removed := by
  cases h with
  | unchanged start mode same =>
    subst same
    have hle := startIndex_le hi
    refine ⟨rfl, fun id hid => .inl hid, rundown.spots.take index, (rundown.spots.drop index).take 1,
      (rundown.spots.drop index).take 1, (rundown.spots.drop index).drop 1, ?_, ?_, ?_, ?_⟩
    · rw [List.take_append_drop, List.take_append_drop]
    · rw [List.take_append_drop, List.take_append_drop]
    · rw [List.length_take]
      omega
    · intro
      exact List.length_take_le 1 _
  | lineChanged h =>
    obtain ⟨frame, before, spot, line, after, rfl, hid, hold, hnew⟩ := h
    refine ⟨frame.layers, fun id hm => .inl ?_, before, [spot], [{ spot with line }], after, hold,
      hnew, length_of_startIndex distinct hnew (hid ▸ hi), fun _ => Nat.le_refl 1⟩
    rw [hnew, List.map_append, List.map_cons, hid]
    rw [hold, List.map_append, List.map_cons] at hm
    exact hm
  | lineInserted h =>
    obtain ⟨frame, before, segment, after, hold, hnew⟩ := h
    refine ⟨frame.layers, fun id hm => .inl ?_, before, [], [⟨segment, _⟩], after, hold, hnew,
      length_of_startIndex distinct hnew hi, fun _ => Nat.le_refl 1⟩
    rw [hold] at hm
    rw [hnew]
    exact (((List.sublist_cons_self _ after).append_left before).map _).subset hm
  | lineRemoved frame hold hnew =>
    rename_i before after spot next
    refine ⟨frame.layers, fun id hm => ?_, before, [spot], [], next :: after, hold, hnew,
      length_of_startIndex distinct hnew hi, fun _ => Nat.zero_le 1⟩
    rw [hold, List.map_append, List.map_cons, List.mem_append, List.mem_cons] at hm
    rw [hnew, List.map_append, List.mem_append, List.mem_singleton]
    rcases hm with hm | rfl | hm
    · exact .inl (.inl hm)
    · exact .inr rfl
    · exact .inl (.inr hm)
  | lineMoved frame rest hold hnew =>
    rename_i before after before' after' segment segment' line
    -- Nothing past the nearer of the two places is told apart: the update runs to the end.
    have hperm : (rundown.spots.map (·.line.id)).Perm (changed.spots.map (·.line.id)) := by
      have hids := congrArg (List.map fun spot : Spot => spot.line.id) rest
      rw [hold, hnew, List.map_append, List.map_append]
      rw [List.map_append, List.map_append] at hids
      refine List.perm_middle.trans (.trans ?_ List.perm_middle.symm)
      rw [hids]
    have hlt : min before.length before'.length < changed.spots.length := by
      rw [hnew, List.length_append, List.length_cons]
      omega
    obtain ⟨spot, hspot⟩ : ∃ spot, RunningOrder.spot? ⟨changed.spots⟩
        (min before.length before'.length) = some spot := ⟨_, List.getElem?_eq_getElem hlt⟩
    obtain ⟨hsplit, hlength⟩ := split_of_getElem? hspot
    rw [hspot] at hi
    have hindex := length_of_startIndex distinct hsplit hi
    have htake : rundown.spots.take index = changed.spots.take index := by
      have hrest := congrArg (List.take index) rest
      rw [List.take_append_of_le_length (by omega), List.take_append_of_le_length (by omega)] at hrest
      rw [hold, hnew, List.take_append_of_le_length (by omega),
        List.take_append_of_le_length (by omega), hrest]
    refine ⟨frame.layers, fun id hm => .inl (hperm.subset hm), changed.spots.take index,
      rundown.spots.drop index, changed.spots.drop index, [], ?_, ?_, ?_, fun h => nomatch h⟩
    · rw [← htake, List.append_nil, List.take_append_drop]
    · rw [List.append_nil, List.take_append_drop]
    · rw [List.length_take]
      omega

namespace Publisher

variable {publisher result : Publisher} {token : Token} {report : Report}

/-- An update that succeeds has checked all lines of the changed rundown that are new. -/
theorem sound_of_update (sound : rundown.Sound) (current : publisher.board.Current rundown)
    (h : publisher.update changed start mode .unset removed = (.ok report, result))
    (hi : startIndex ⟨changed.spots⟩ start = .ok index)
    (reworked : rundown.Reworked changed mode index removed) : changed.Sound := by
  obtain ⟨before, old, new, after, hold, hnew, rfl, hone⟩ := reworked.place
  have shows := current.shows
  rw [hold, ← reworked.layers] at shows
  have hbefore := (Board.shows_append.mp shows).1
  have unchanged {spot : Spot} (hs : spot ∈ rundown.spots) :
      spot.line.check changed.layerIds = .ok () := reworked.layers ▸ sound.check hs
  have checkedBefore : ∀ spot ∈ before, spot.line.check changed.layerIds = .ok () := fun spot hs =>
    unchanged (hold ▸ List.mem_append_left _ hs)
  have checkedAfter : ∀ spot ∈ after, spot.line.check changed.layerIds = .ok () := fun spot hs =>
    unchanged (hold ▸ List.mem_append_right _ (List.mem_append_right _ hs))
  have checkedNew : ∀ spot ∈ new ++ after, spot.line.check changed.layerIds = .ok () := by
    rw [hnew] at hi
    cases mode with
    | runToEnd => exact checks_of_update hnew hi hbefore h
    | suffix =>
      match new, hone rfl with
      | [], _ => exact checkedAfter
      | [spot], _ =>
        exact List.forall_mem_cons.mpr ⟨check_of_update hnew hi hbefore h, checkedAfter⟩
  refine Rundown.sound_of_checks (update_ok h).1 fun spot hs => ?_
  rw [hnew] at hs
  exact (List.mem_append.mp hs).elim (checkedBefore spot) (checkedNew spot)

/-- An update of a sound rundown succeeds if it covers what was done to it. -/
theorem update_of_reworked (soundChanged : changed.Sound) (current : publisher.board.Current rundown)
    (hi : startIndex ⟨changed.spots⟩ start = .ok index)
    (reworked : rundown.Reworked changed mode index removed) :
    ∃ report result, publisher.update changed start mode .unset removed = (.ok report, result) ∧
      Refreshed changed removed publisher.board result.board := by
  obtain ⟨before, old, new, after, hold, hnew, rfl, hone⟩ := reworked.place
  have shows := current.shows
  rw [hold] at shows
  obtain ⟨hbefore, hrest⟩ := Board.shows_append.mp shows
  obtain ⟨-, hafter⟩ := Board.shows_append.mp hrest
  rw [← Feeds.through_append] at hafter
  rw [hnew] at hi
  cases mode with
  | runToEnd =>
    rw [← reworked.layers] at hbefore
    exact update_runToEnd soundChanged hnew hi hbefore
  | suffix =>
    have hlayers : ∀ y, y ∈ rundown.layerIds ↔ y ∈ changed.layerIds := fun y => by
      rw [reworked.layers]
    exact update_suffix_replaced soundChanged hnew (hone rfl) hi hlayers hbefore hafter

theorem update_current (sound : rundown.Sound) (current : publisher.board.Current rundown)
    (h : publisher.update changed start mode token removed = (.ok report, result))
    (reworked : ∀ index, startIndex ⟨changed.spots⟩ start = .ok index →
      rundown.Reworked changed mode index removed) :
    changed.Sound ∧ result.board.Current changed := by
  have hunset := update_of_token h
  obtain ⟨distinct, index, -, -, hi, -, -⟩ := update_ok hunset
  have rework := reworked index hi
  have soundChanged := sound_of_update sound current hunset hi rework
  obtain ⟨_, _, hupdate, refreshed⟩ :=
    update_of_reworked soundChanged current hi rework
  obtain ⟨-, rfl⟩ := Prod.mk.inj (hupdate.symm.trans hunset)
  refine ⟨soundChanged, refreshed.shows, fun id hid => ?_⟩
  rcases refreshed.dropped id hid with hnone | ⟨hremoved, hsame⟩
  · exact hnone
  · rw [hsame]
    refine current.only id fun hm => ?_
    rw [← Rundown.map_lineId_spots] at hm hid
    exact (rework.kept id hm).elim hid hremoved

theorem forget_current (sound : rundown.Sound) (current : publisher.board.Current rundown)
    {before : List Spot} {spot : Spot} (frame : rundown.SameFrame changed)
    (hold : rundown.spots = before ++ [spot]) (hnew : changed.spots = before) :
    (publisher.forget [spot.line.id]).2.board.Current changed := by
  have hlines := sound.lineIds_nodup hold
  rw [List.map_append] at hlines
  have shows := current.shows
  rw [hold, ← frame.layers] at shows
  constructor
  · rw [hnew]
    refine (Board.shows_congr fun s hs => ?_).mp (Board.shows_append.mp shows).1
    rw [line?_forget, if_neg]
    intro hm
    exact (List.nodup_append.mp hlines).2.2 _ (List.mem_map_of_mem hs) _ List.mem_cons_self
      (List.mem_singleton.mp hm)
  · intro id hid
    rw [line?_forget]
    split
    · rfl
    · next hne =>
      refine current.only id fun hm => ?_
      rw [← Rundown.map_lineId_spots, hold, List.map_append] at hm
      rw [← Rundown.map_lineId_spots, hnew] at hid
      exact (List.mem_append.mp hm).elim hid hne

end Publisher

end OnAir
