import OnAir.Proofs.Rework

set_option autoImplicit false

/-!
Recomputing twice. A second walk over the same lines finds on the board what the first one noted
there. Each of its lanes is settled or where the first walk's lane was (`Flow.Follows`), so it shows
the same on every line, stops no later, and notes nothing.
-/
namespace OnAir

/-- A lane of a second walk against that of the first one. -/
def Flow.Follows (first second : Flow) : Prop := second = .settled ∨ second = first

theorem Flow.Follows.settled {second : Flow} (h : Flow.settled.Follows second) :
    second = .settled :=
  h.elim id id

/-- Where the board shows what the first walk's lane showed, the second walk's lane shows it too. -/
theorem Lane.step_again {settling settling' : Bool} (hs : settling = true → settling' = true)
    {spot : Spot} {published published' : Option Lineup} {last : Option (Id .segment)}
    {layer : Id .layer} {flow flow' next : Flow} {entry : Option Airing}
    (h : step settling spot published (crossed last spot.segment ⟨layer, flow⟩) =
      some (entry, ⟨layer, next⟩))
    (follows : flow.Follows flow') (hp : published'.bind (IdMap.get? · layer) = some entry) :
    ∃ next', step settling' spot published' (crossed last spot.segment ⟨layer, flow'⟩) =
        some (entry, ⟨layer, next'⟩) ∧ next.Follows next' := by
  have settled : ∃ next', step settling' spot published'
      (crossed last spot.segment ⟨layer, .settled⟩) = some (entry, ⟨layer, next'⟩) ∧
        next.Follows next' := by
    refine ⟨.settled, ?_, .inl rfl⟩
    rw [crossed_settled]
    exact congrArg (Option.map _) hp
  rcases follows with rfl | rfl
  · exact settled
  · cases flow' with
    | settled => exact settled
    | live carry =>
      have hcross := @crossed_live ⟨last, carry⟩ spot.segment layer
      dsimp only at hcross
      rw [hcross, step_live] at h
      obtain ⟨rfl, hnext⟩ := Prod.mk.inj (Option.some.inj h)
      obtain rfl := congrArg Lane.flow hnext
      rw [hcross, step_live]
      refine ⟨_, rfl, ?_⟩
      -- The board shows the lane's entry, so only an item that starts keeps the lane from settling.
      rw [hp, decide_eq_true rfl, Bool.and_true]
      by_cases hsettles : (settling' && !starts layer spot.line) = true
      · exact .inl (if_pos hsettles)
      · refine .inr ((if_neg hsettles).trans (if_neg fun hfirst => hsettles ?_).symm)
        rw [Bool.and_eq_true, Bool.and_eq_true] at hfirst
        rw [Bool.and_eq_true]
        exact hfirst.1.imp_left hs

namespace Walk

variable {walk : Walk} {board : Board} {flow flow' : Id .layer → Flow}
  {last : Option (Id .segment)} {mode mode' : Mode}

def onto (walk : Walk) (board : Board) : Walk := { walk with board }

theorem line_again {settling settling' : Bool} (hs : settling = true → settling' = true)
    {spot : Spot} {lineup : Lineup} {lanes : List Lane}
    (h : walk.line settling spot (cross last spot.segment (walk.lanes flow)) =
      some (lineup, lanes))
    (follows : ∀ y ∈ walk.layers, (flow y).Follows (flow' y))
    (hb : board.line? spot.line.id = some lineup) :
    ∃ next next', lanes = walk.lanes next ∧
      (walk.onto board).line settling' spot
        (cross last spot.segment ((walk.onto board).lanes flow')) =
          some (lineup, (walk.onto board).lanes next') ∧
      ∀ y ∈ walk.layers, (next y).Follows (next' y) := by
  obtain ⟨entry, next, hsteps, rfl, rfl⟩ := steps_of_line h
  have each : ∀ y, ∃ next', y ∈ walk.layers →
      Lane.step settling' spot (board.line? spot.line.id)
        (Lane.crossed last spot.segment ⟨y, flow' y⟩) = some (entry y, ⟨y, next'⟩) ∧
      (next y).Follows next' := by
    intro y
    by_cases hy : y ∈ walk.layers
    · have hentry : (board.line? spot.line.id).bind (IdMap.get? · y) = some (entry y) := by
        rw [hb, Option.bind_some, IdMap.ofList, IdMap.get?_insertAll_map, if_pos hy]
      obtain ⟨next', hstep⟩ := Lane.step_again hs (hsteps y hy) (follows y hy) hentry
      exact ⟨next', fun _ => hstep⟩
    · exact ⟨.settled, fun h => absurd h hy⟩
  choose next' hnext' using each
  exact ⟨next, next', rfl, line_of_steps fun y hy => (hnext' y hy).1, fun y hy => (hnext' y hy).2⟩

theorem stops_again (hm : mode = .suffix → mode' = .suffix) {next next' : Id .layer → Flow}
    (follows : ∀ y ∈ walk.layers, (next y).Follows (next' y))
    (h : (mode = .suffix && !(walk.lanes next).isEmpty && (walk.lanes next).all Lane.isSettled) =
      true) :
    (mode' = .suffix && !((walk.onto board).lanes next').isEmpty &&
      ((walk.onto board).lanes next').all Lane.isSettled) = true := by
  have hempty : ((walk.onto board).lanes next').isEmpty = (walk.lanes next).isEmpty := by
    rw [lanes, lanes, List.isEmpty_map, List.isEmpty_map]
    rfl
  simp only [hempty, Bool.and_eq_true, decide_eq_true_eq, List.all_eq_true] at h ⊢
  refine ⟨h.1.imp_left hm, fun lane hlane => ?_⟩
  obtain ⟨y, hy, rfl⟩ := List.mem_map.mp hlane
  have hflow : next y = .settled := of_decide_eq_true (h.2 ⟨y, next y⟩ (List.mem_map_of_mem hy))
  exact decide_eq_true (hflow ▸ follows y hy).settled

theorem line?_of_noted {spot : Spot} {rest : List Spot} {lineup : Lineup}
    {later : List (Id .line × Lineup)} (hn : ((spot :: rest).map (·.line.id)).Nodup)
    (hkeys : (later.map (·.1)).Sublist (rest.map (·.line.id)))
    (hb : ∀ s ∈ spot :: rest, board.line? s.line.id =
      (walk.board.putAll (walk.write spot.line.id lineup ++ later)).line? s.line.id) :
    board.line? spot.line.id = some lineup ∧
      ∀ s ∈ rest, board.line? s.line.id = (walk.board.putAll later).line? s.line.id := by
  obtain ⟨hspot, -⟩ := List.nodup_cons.mp hn
  have hsplit : walk.board.putAll (walk.write spot.line.id lineup ++ later) =
      (walk.board.putAll (walk.write spot.line.id lineup)).putAll later := List.foldl_append
  rw [hsplit] at hb
  constructor
  · rw [hb spot List.mem_cons_self, Board.line?_putAll_of_not_mem fun hm => hspot (hkeys.subset hm),
      line?_putAll_write rfl, if_pos rfl]
  · intro s hs
    have hne : spot.line.id ≠ s.line.id := fun heq => hspot (List.mem_map.mpr ⟨s, hs, heq.symm⟩)
    rw [hb s (List.mem_cons_of_mem spot hs)]
    exact Board.line?_putAll_congr ((line?_putAll_write rfl ..).trans (if_neg hne)) later

/-- A walk over a board that shows what a walk over the same lines has noted notes nothing. -/
theorem run_again (hm : mode = .suffix → mode' = .suffix)
    {spots : List Spot} (hn : (spots.map (·.line.id)).Nodup)
    (follows : ∀ y ∈ walk.layers, (flow y).Follows (flow' y)) {visited : Nat} {pass : Pass}
    (h : walk.run mode .unset last (walk.lanes flow) visited spots = .ok (.done pass))
    (hb : ∀ spot ∈ spots,
      board.line? spot.line.id = (walk.board.putAll pass.writes).line? spot.line.id) :
    ∃ visited' early,
      (walk.onto board).run mode' .unset last ((walk.onto board).lanes flow') visited spots =
        .ok (.done ⟨[], visited', early⟩) ∧ (pass.early = true → early = true) := by
  induction spots generalizing flow flow' last visited pass with
  | nil =>
    obtain rfl := Outcome.done.inj (Except.ok.inj h)
    exact ⟨visited, false, rfl, id⟩
  | cons spot rest ih =>
    obtain ⟨hcheck, lineup, lanes, after, hline, rfl, hafter⟩ := run_cons_done h
    have hkeys : (after.writes.map (·.1)).Sublist (rest.map (·.line.id)) := by
      rcases hafter with ⟨-, rfl⟩ | hafter
      · exact List.nil_sublist _
      · exact (run_writes hafter).1
    obtain ⟨hshown, hboard⟩ := line?_of_noted hn hkeys hb
    have hsettling : (decide (mode = .suffix) && decide (0 < visited)) = true →
        (decide (mode' = .suffix) && decide (0 < visited)) = true := by
      simp only [Bool.and_eq_true, decide_eq_true_eq]
      exact And.imp_left hm
    obtain ⟨next, next', rfl, hline', follows'⟩ := line_again hsettling hline follows hshown
    have hwrite : (walk.onto board).write spot.line.id lineup = [] := if_pos hshown
    have hcheck' : spot.line.check (walk.onto board).layers = .ok () := hcheck
    rw [run_of_line mode' visited hcheck' hline' rest, hwrite]
    rcases hafter with ⟨hstop, rfl⟩ | hafter
    · rw [if_pos (stops_again hm follows' hstop)]
      exact ⟨visited + 1, !rest.isEmpty, rfl, id⟩
    · split
      · refine ⟨visited + 1, !rest.isEmpty, rfl, fun hearly => ?_⟩
        cases rest with
        | nil =>
          obtain rfl := Outcome.done.inj (Except.ok.inj hafter)
          exact hearly
        | cons _ _ => rfl
      · obtain ⟨visited', early, hrun, hearly⟩ := ih (List.nodup_cons.mp hn).2 follows' hafter hboard
        rw [hrun]
        exact ⟨visited', early, rfl, hearly⟩

theorem updates_of_shows (walk : Walk) {feeds : Feeds} {spots : List Spot}
    (h : walk.board.Shows walk.layers feeds spots) : walk.updates feeds spots = [] := by
  induction spots generalizing feeds with
  | nil => rfl
  | cons spot rest ih =>
    rw [updates, ih h.2, write, if_pos h.1]
    rfl

end Walk

namespace RunningOrder

variable {order : RunningOrder} {layers : List (Id .layer)} {board : Board} {index : Nat}

theorem lanesInto?_live {lanes : List Lane} (h : order.lanesInto? layers board index = some lanes) :
    ∃ carry : Id .layer → Option Carry, lanes = layers.map fun y => ⟨y, .live (carry y)⟩ := by
  cases index with
  | zero => exact ⟨fun _ => none, (Option.some.inj h).symm⟩
  | succ last =>
    obtain ⟨-, -, -, -, carry, hlanes, -⟩ := lanesInto?_eq_some h
    exact ⟨carry, hlanes⟩

theorem lanesInto?_congr {board' : Board}
    (h : ∀ spot ∈ order.spots.take index, board'.line? spot.line.id = board.line? spot.line.id) :
    order.lanesInto? layers board' index = order.lanesInto? layers board index := by
  cases index with
  | zero => rfl
  | succ before =>
    rw [lanesInto?, lanesInto?]
    cases hspot : order.spot? before with
    | none => rfl
    | some spot =>
      have hm : spot ∈ order.spots.take (before + 1) :=
        List.mem_of_getElem? ((List.getElem?_take_of_lt (Nat.lt_succ_self before)).trans hspot)
      dsimp only
      rw [h spot hm]

end RunningOrder

namespace Publisher

variable {publisher : Publisher} {order : RunningOrder} {layers : List (Id .layer)} {mode : Mode}
  {index first : Nat} {pass : Pass} {rundown : Rundown}

theorem pass_of_run {lanes : List Lane}
    (hlanes : order.lanesInto? layers publisher.board index = some lanes)
    (hrun : (publisher.walk layers).run mode .unset (order.segmentBefore? index) lanes 0
      (order.since index) = .ok (.done pass)) :
    publisher.pass layers order index mode .unset = .ok (index, pass) := by
  have hfrom : walkFrom (publisher.walk layers) order index lanes mode .unset = .ok pass := by
    rw [walkFrom]
    dsimp only
    rw [hrun]
  rw [Publisher.pass, hlanes]
  exact congrArg (Except.map _) hfrom

theorem pass_of_shows_all {before after : List Spot}
    (hn : ((before ++ after).flatMap fun s => s.line.items.map (·.id)).Nodup)
    (shows : publisher.board.Shows layers .start (before ++ after))
    (checks : ∀ spot ∈ after, spot.line.check layers = .ok ()) (mode : Mode) :
    ∃ visited early, publisher.pass layers ⟨before ++ after⟩ before.length mode .unset =
      .ok (before.length, ⟨[], visited, early⟩) := by
  obtain ⟨hbefore, hafter⟩ := Board.shows_append.mp shows
  cases mode with
  | runToEnd =>
    have hnone := (publisher.walk layers).updates_of_shows hafter
    rw [pass_runToEnd hn hbefore, forM_eq_ok_iff.mpr checks, hnone]
    exact ⟨after.length, false, rfl⟩
  | suffix =>
    have inScope := Feeds.start_inScope.through before
    have trust : publisher.board.Trusts layers false (Feeds.start.through before) after :=
      hafter.trusts_replaced (fun _ => id) inScope inScope
        (show ([] : List Spot).length ≤ 1 from Nat.zero_le 1)
    obtain ⟨walked, left, rfl, -, hpass, -⟩ := pass_suffix hn hbefore trust checks
    have hnone := (publisher.walk layers).updates_of_shows (Board.shows_append.mp hafter).1
    rw [hpass, hnone]
    exact ⟨walked.length, !left.isEmpty, rfl⟩

/-- After a walk has been published, a pass from the same start notes nothing, and goes over all
lines only if that walk did. -/
theorem pass_again (hn : order.lineIds.Nodup) {lanes : List Lane} {mode' : Mode}
    (hlanes : order.lanesInto? layers publisher.board index = some lanes)
    (hrun : (publisher.walk layers).run mode' .unset (order.segmentBefore? index) lanes 0
      (order.since index) = .ok (.done pass)) (hm : mode' = .suffix → mode = .suffix) :
    ∃ visited early, (publisher.publish order mode index pass []).2.pass layers order index mode .unset =
      .ok (index, ⟨[], visited, early⟩) ∧ (pass.early = true → early = true) := by
  have hids : order.lineIds =
      (order.spots.take index).map (·.line.id) ++ (order.since index).map (·.line.id) := by
    rw [← List.map_append, RunningOrder.since, List.take_append_drop]
    rfl
  obtain ⟨-, hsince, hdisjoint⟩ := List.nodup_append.mp (hids ▸ hn)
  have contained {id : Id .line} (h : id ∈ order.lineIds) : order.contains id = true :=
    RunningOrder.contains_iff.mpr h
  have hkeys := (Walk.run_writes hrun).1
  have hlanes' : order.lanesInto? layers (publisher.publish order mode index pass []).2.board index =
      some lanes := by
    refine (RunningOrder.lanesInto?_congr fun spot hs => ?_).trans hlanes
    have hid : spot.line.id ∈ (order.spots.take index).map (·.line.id) := List.mem_map_of_mem hs
    rw [line?_publish_of_contains (contained (hids ▸ List.mem_append_left _ hid))]
    exact Board.line?_putAll_of_not_mem fun hm => hdisjoint _ hid _ (hkeys.subset hm) rfl
  obtain ⟨carry, rfl⟩ := RunningOrder.lanesInto?_live hlanes
  have hshown : ∀ spot ∈ order.since index,
      (publisher.publish order mode index pass []).2.board.line? spot.line.id =
        (publisher.board.putAll pass.writes).line? spot.line.id := fun spot hs =>
    line?_publish_of_contains
      (contained (hids ▸ List.mem_append_right _ (List.mem_map_of_mem hs))) mode index pass []
  have follows : ∀ y ∈ layers, (Flow.live (carry y)).Follows (.live (carry y)) :=
    fun _ _ => .inr rfl
  obtain ⟨visited, early, hrun', hearly⟩ := Walk.run_again hm hsince follows hrun hshown
  exact ⟨visited, early, pass_of_run hlanes' hrun', hearly⟩

theorem pass_after_all (distinct : rundown.Distinct) (hindex : index ≤ rundown.spots.length)
    (hrun : (publisher.walk rundown.layerIds).run .runToEnd .unset none (rundown.layerIds.map Lane.idle) 0
      rundown.spots = .ok (.done pass)) :
    ∃ visited early, (publisher.publish ⟨rundown.spots⟩ mode 0 pass []).2.pass rundown.layerIds
      ⟨rundown.spots⟩ index mode .unset = .ok (index, ⟨[], visited, early⟩) := by
  have hpass : publisher.pass rundown.layerIds ⟨rundown.spots⟩ 0 .runToEnd .unset = .ok (0, pass) :=
    pass_of_run rfl hrun
  have hrecompute : publisher.recompute rundown none .runToEnd .unset =
      (.ok (publisher.publish ⟨rundown.spots⟩ .runToEnd 0 pass []).1,
        (publisher.publish ⟨rundown.spots⟩ mode 0 pass []).2) := by
    have hstart : startIndex ⟨rundown.spots⟩ none = .ok 0 := rfl
    rw [recompute, update_of_distinct distinct hstart, hpass]
    rfl
  have sound := sound_of_recompute hrecompute
  obtain ⟨_, _, hsound, refreshed⟩ := recompute_of_sound sound publisher
  obtain ⟨-, rfl⟩ := Prod.mk.inj (hsound.symm.trans hrecompute)
  have hsplit : rundown.spots = rundown.spots.take index ++ rundown.spots.drop index :=
    (List.take_append_drop ..).symm
  have shows := refreshed.shows
  have hn := sound.itemIds_nodup rfl
  rw [hsplit] at shows hn
  have hpass' := pass_of_shows_all hn shows (fun spot hs => sound.check (List.mem_of_mem_drop hs)) mode
  rwa [← hsplit, List.length_take_of_le hindex] at hpass'

theorem publish_nothing (publisher : Publisher) (mode : Mode) (hw : pass.writes = [])
    (clean : publisher.dropsOthers first pass = true →
      ∀ id, order.contains id = false → publisher.board.line? id = none) :
    ∃ report, publisher.publish order mode first pass [] = (report, publisher) ∧
      report.changed = 0 ∧ report.pruned = 0 ∧ report.version = publisher.board.version := by
  have hprune : (publisher.prune order first pass []).1 = 0 := by
    rw [prune_eq]
    change (if publisher.dropsOthers first pass = true then (0 + (publisher.board.lines.size -
      (publisher.board.keep order.contains).lines.size), publisher.board.keep order.contains)
      else (0, publisher.board)).1 = 0
    split
    · next hdrops =>
      have hkeep : (publisher.board.keep order.contains).lines = publisher.board.lines := by
        refine IdMap.ext fun id => (Board.line?_keep ..).trans ?_
        split
        · rfl
        · next hc => exact (clean hdrops id (Bool.eq_false_iff.mpr hc)).symm
      rw [hkeep, Nat.sub_self]
    · rfl
  have hnext : (publisher.publish order mode first pass []).2.board = publisher.board :=
    if_pos ⟨List.length_eq_zero_iff.mpr hw, hprune⟩
  refine ⟨(publisher.publish order mode first pass []).1, Prod.ext rfl ?_, ?_, hprune, ?_⟩
  · exact congrArg (Publisher.mk publisher.settings) hnext
  · exact List.length_eq_zero_iff.mpr hw
  · exact congrArg Board.version hnext

/-- After a pass has been published, the same pass starts where it was asked to, notes nothing, and
goes over all lines only if the first one did. -/
theorem pass_published (distinct : rundown.Distinct) (hindex : index ≤ rundown.spots.length)
    (h : publisher.pass rundown.layerIds ⟨rundown.spots⟩ index mode .unset = .ok (first, pass)) :
    ∃ visited early,
      (publisher.publish ⟨rundown.spots⟩ mode first pass []).2.pass rundown.layerIds ⟨rundown.spots⟩
        index mode .unset = .ok (index, ⟨[], visited, early⟩) ∧
      (publisher.dropsOthers index ⟨[], visited, early⟩ = true →
        publisher.dropsOthers first pass = true) := by
  obtain ⟨lanes, mode', hlanes, hrun, ⟨rfl, hm⟩ | ⟨hnone, rfl, rfl⟩⟩ := pass_ok h
  · obtain ⟨visited, early, hagain, hearly⟩ :=
      pass_again (distinct.lineIds_nodup rfl) hlanes hrun hm
    refine ⟨visited, early, hagain, fun hdrops => ?_⟩
    simp only [dropsOthers, Bool.and_eq_true, Bool.not_eq_true'] at hdrops ⊢
    refine hdrops.imp_left (And.imp_right fun hlate => Bool.eq_false_iff.mpr fun h => ?_)
    exact Bool.false_ne_true (hlate.symm.trans (hearly h))
  · obtain rfl := Option.some.inj hlanes
    obtain ⟨visited, early, hagain⟩ := pass_after_all distinct hindex hrun
    refine ⟨visited, early, hagain, fun hdrops => ?_⟩
    simp only [dropsOthers, Bool.and_eq_true, decide_eq_true_eq] at hdrops
    rw [hdrops.1.1] at hnone
    exact nomatch hnone

/-- A recompute that succeeds, made once more, succeeds, finds nothing to change or to drop, and
leaves the board as it is, whatever the board showed at first. -/
theorem recompute_again {start : Option (Id .line)} {report : Report} {result : Publisher}
    (h : publisher.recompute rundown start mode .unset = (.ok report, result)) :
    ∃ again, result.recompute rundown start mode .unset = (.ok again, result) ∧
      again.changed = 0 ∧ again.pruned = 0 ∧ again.version = report.version := by
  obtain ⟨distinct, index, first, pass, hi, hpass, hpublish⟩ := update_ok h
  have hreport : (publisher.publish ⟨rundown.spots⟩ mode first pass []).1 = report :=
    congrArg Prod.fst hpublish
  have hresult : (publisher.publish ⟨rundown.spots⟩ mode first pass []).2 = result :=
    congrArg Prod.snd hpublish
  obtain ⟨visited, early, hagain, hdrops⟩ := pass_published distinct (startIndex_le hi) hpass
  have clean : result.dropsOthers index ⟨[], visited, early⟩ = true →
      ∀ id, RunningOrder.contains ⟨rundown.spots⟩ id = false → result.board.line? id = none := by
    intro hothers id hid
    have hw : id ∉ pass.writes.map (·.1) := fun hm =>
      Bool.false_ne_true (hid.symm.trans
        (RunningOrder.contains_iff.mpr ((pass_writes hpass).1.subset hm)))
    rw [← hresult] at hothers ⊢
    rw [line?_publish_of_not_contains hid hw, if_pos (.inr (hdrops hothers))]
  rw [hresult] at hagain
  obtain ⟨again, hnothing, hchanged, hpruned, hversion⟩ := publish_nothing result mode rfl clean
  refine ⟨again, ?_, hchanged, hpruned, hversion.trans ?_⟩
  · rw [recompute, update_of_distinct distinct hi, hagain]
    dsimp only
    rw [hnothing]
  · rw [← hresult, ← hreport]
    rfl

/-- The first recompute writes the headlines and stops on the report, over an entry of the weather
that is wrong and stays so. -/
theorem recompute_headlines_again :
    let full := (Rundown.bulletin.fullRun .standard).2.board
    let stale : Publisher := ⟨.standard, (full.put ⟨"headlines"⟩ .empty).put ⟨"weather"⟩ .empty⟩
    let first := stale.recompute Rundown.bulletin (some ⟨"headlines"⟩) .suffix .unset
    first.1 = .ok ⟨some ⟨"headlines"⟩, .suffix, 2, 1, true, 0, 2⟩ ∧
      ∃ again, first.2.recompute Rundown.bulletin (some ⟨"headlines"⟩) .suffix .unset =
        (.ok again, first.2) ∧ again.changed = 0 ∧ again.pruned = 0 ∧ again.version = 2 := by
  intro full stale first
  have hfirst : first.1 = .ok ⟨some ⟨"headlines"⟩, .suffix, 2, 1, true, 0, 2⟩ := by rfl
  exact ⟨hfirst, recompute_again (Prod.ext hfirst rfl)⟩

end Publisher

end OnAir
