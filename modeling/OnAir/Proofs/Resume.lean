import OnAir.Proofs.FullRun

set_option autoImplicit false

/-!
Taking a walk up in the middle. What a walk to the end has found on the lines behind it comes down to
the lanes that it holds there (`Walk.lanesPast?`), and these lanes can be told from what the board
shows on the one line before.
-/
namespace OnAir

namespace Pass

/-- The pass of a walk that had some notes when it came to where this one starts. -/
def after (notes : List (Id .line × Lineup)) (pass : Pass) : Pass :=
  { pass with writes := notes ++ pass.writes }

theorem map_after_nil (found : Except Fault Outcome) :
    found.map (Outcome.map (after [])) = found := by
  rcases found with fault | pass | token <;> rfl

theorem map_after_after (xs ys : List (Id .line × Lineup)) (found : Except Fault Outcome) :
    (found.map (Outcome.map (after ys))).map (Outcome.map (after xs)) =
      found.map (Outcome.map (after (xs ++ ys))) := by
  rcases found with fault | pass | token
  · rfl
  · simp [Except.map, Outcome.map, after, List.append_assoc]
  · rfl

end Pass

namespace Walk

/-- The lanes that a walk to the end holds behind some spots, if none of them is stuck on the way. -/
def lanesPast? (walk : Walk) : Option (Id .segment) → List Lane → List Spot → Option (List Lane)
  | _, lanes, [] => some lanes
  | last, lanes, spot :: rest =>
    (walk.line false spot (cross last spot.segment lanes)).bind fun found =>
      lanesPast? walk (some spot.segment) found.2 rest

def segmentPast : Option (Id .segment) → List Spot → Option (Id .segment)
  | last, [] => last
  | _, spot :: rest => segmentPast (some spot.segment) rest

variable {walk : Walk} {last : Option (Id .segment)} {lanes next : List Lane}

theorem segmentPast_concat (last : Option (Id .segment)) (spots : List Spot) (spot : Spot) :
    segmentPast last (spots ++ [spot]) = some spot.segment := by
  induction spots generalizing last with
  | nil => rfl
  | cons first rest ih => exact ih (some first.segment)

/-- Behind some lines, a walk to the end goes on from the lanes that it holds there, and all that it
has found before are notes. -/
theorem run_append {before : List Spot}
    (hpast : walk.lanesPast? last lanes before = some next)
    (checks : ∀ spot ∈ before, spot.line.check walk.layers = .ok ()) (visited : Nat) :
    ∃ notes, ∀ rest, walk.run .runToEnd .unset last lanes visited (before ++ rest) =
      (walk.run .runToEnd .unset (segmentPast last before) next (visited + before.length) rest).map
        (Outcome.map (Pass.after notes)) := by
  induction before generalizing last lanes visited with
  | nil =>
    obtain rfl := Option.some.inj hpast
    exact ⟨[], fun rest => (Pass.map_after_nil _).symm⟩
  | cons spot before ih =>
    rw [lanesPast?, Option.bind_eq_some_iff] at hpast
    obtain ⟨⟨lineup, held⟩, hline, hrest⟩ := hpast
    obtain ⟨notes, hnotes⟩ :=
      ih hrest (fun s hs => checks s (List.mem_cons_of_mem spot hs)) (visited + 1)
    refine ⟨walk.write spot.line.id lineup ++ notes, fun rest => ?_⟩
    have hcount : visited + 1 + before.length = visited + (spot :: before).length := by
      simp only [List.length_cons]
      omega
    -- The first line adds its note in front of those of the lines after it.
    calc walk.run .runToEnd .unset last lanes visited (spot :: (before ++ rest))
      _ = (walk.run .runToEnd .unset (some spot.segment) held (visited + 1) (before ++ rest)).map
            (Outcome.map (Pass.after (walk.write spot.line.id lineup))) :=
          (run_of_line .runToEnd visited (checks spot List.mem_cons_self) hline _).trans
            (if_neg Bool.false_ne_true)
      _ = _ := by rw [hnotes, Pass.map_after_after, hcount, segmentPast]

/-- No lane of a walk to the end is ever stuck: each carries what its feed does. -/
theorem lanesPast?_live (walk : Walk) {feeds : Feeds} (hlast : ∀ y, (feeds y).last = last)
    (spots : List Spot) :
    walk.lanesPast? last (walk.lanes fun y => .live (feeds y).carry) spots =
      some (walk.lanes fun y => .live ((feeds.through spots) y).carry) := by
  induction spots generalizing feeds last with
  | nil => rfl
  | cons spot rest ih =>
    rw [lanesPast?, walk.line_live hlast spot, Option.bind_some]
    exact ih (last_past feeds spot)

end Walk

namespace RunningOrder

variable {rundown : Rundown} {order : RunningOrder}

theorem segmentBefore?_eq_segmentPast (before after : List Spot) :
    segmentBefore? ⟨before ++ after⟩ before.length = Walk.segmentPast none before := by
  rcases List.eq_nil_or_concat before with rfl | ⟨earlier, spot, rfl⟩
  · rfl
  · rw [List.concat_eq_append, List.append_assoc, List.singleton_append, List.length_append,
      Walk.segmentPast_concat]
    change (spot? _ earlier.length).map Spot.segment = _
    rw [spot?_of_split]
    rfl

/-- From any line on, the lanes told from the line before are those that a walk over all lines holds
there, if the board shows on that one line what a full run shows. The walk goes on from them. -/
theorem lanesInto?_eq_lanesPast? {settings : Settings} {report : Report} {full : Publisher}
    (hfull : rundown.fullRun settings = (.ok report, full)) (horder : rundown.order = .ok order)
    {index : Nat} (hpos : 0 < index) {spot : Spot} (hspot : order.spot? (index - 1) = some spot)
    {board : Board} {lineup : Lineup}
    (hline : board.line? spot.line.id = some lineup)
    (held : ∀ layer ∈ rundown.layerIds, lineup.get? layer = full.board.entry? spot.line.id layer)
    (walker : Publisher) :
    ∃ lanes, order.lanesInto? rundown.layerIds board index = some lanes ∧
      (walker.walk rundown.layerIds).lanesPast? none (rundown.layerIds.map Lane.idle)
        (order.spots.take index) = some lanes ∧
      ∃ notes, (walker.walk rundown.layerIds).run .runToEnd .unset none (rundown.layerIds.map Lane.idle) 0
          order.spots =
        ((walker.walk rundown.layerIds).run .runToEnd .unset (order.segmentBefore? index) lanes index
          (order.since index)).map (Outcome.map (Pass.after notes)) := by
  obtain ⟨sound, current⟩ := Rundown.fullRun_ok hfull
  obtain ⟨-, rfl⟩ := Rundown.order_eq_ok_iff.mp horder
  obtain ⟨before, after, hsplit, rfl⟩ : ∃ before after,
      rundown.spots = before ++ spot :: after ∧ index = before.length + 1 := by
    obtain ⟨hsplit, hlength⟩ := split_of_getElem? hspot
    exact ⟨_, _, hsplit, by omega⟩
  have hseam : rundown.spots = (before ++ [spot]) ++ after := by simp [hsplit]
  have hindex : before.length + 1 = (before ++ [spot]).length := by simp
  have shows := current.shows
  rw [hsplit] at shows
  have hpast := (walker.walk rundown.layerIds).lanesPast?_live
    (fun _ => rfl : ∀ y, (Feeds.start y).last = none) (before ++ [spot])
  have checks : ∀ s ∈ before ++ [spot], s.line.check rundown.layerIds = .ok () := by
    intro s hs
    exact sound.check (hseam ▸ List.mem_append_left after hs)
  obtain ⟨notes, hnotes⟩ := Walk.run_append hpast checks 0
  refine ⟨(walker.walk rundown.layerIds).lanes fun y =>
    .live ((Feeds.start.through (before ++ [spot])) y).carry, ?_, ?_, notes, ?_⟩
  · refine lanesInto?_of_entries (sound.itemIds_nodup rfl) hsplit hline fun y hy => ?_
    obtain ⟨-, here⟩ := Board.shows_append.mp shows
    exact (held y hy).trans (here.entry? hy)
  · rw [hindex, hseam, List.take_left]
    exact hpast
  · rw [hindex, hseam, since_of_split, segmentBefore?_eq_segmentPast]
    have h := hnotes after
    rw [Nat.zero_add] at h
    exact h

theorem lanesInto?_bulletin_weather :
    let order : RunningOrder := ⟨Rundown.bulletin.spots⟩
    let logo : Airing := ⟨⟨"logo"⟩, ⟨"headlines"⟩, .nextItem, true, 30000, none⟩
    let board : Board := Board.empty.put ⟨"report"⟩ (.ofList [(⟨"graphics"⟩, some logo)])
    let lanes : List Lane :=
      [⟨⟨"graphics"⟩, .live (some ⟨⟨"logo"⟩, ⟨"headlines"⟩, ⟨"news"⟩, .nextItem, 120000⟩)⟩]
    order.lanesInto? [⟨"graphics"⟩] board 2 = some lanes ∧
      ((Publisher.fresh .standard).walk [⟨"graphics"⟩]).lanesPast? none [Lane.idle ⟨"graphics"⟩]
        (order.spots.take 2) = some lanes := by
  intro order logo board lanes
  obtain ⟨report, full, hfull, -⟩ := Rundown.fullRun_of_sound Rundown.bulletin_sound .standard
  have hboard : full = (Rundown.bulletin.fullRun .standard).2 := by rw [hfull]
  have hshown : full.board.entry? ⟨"report"⟩ ⟨"graphics"⟩ = some (some logo) := by
    rw [hboard]
    decide +kernel
  have hinto : order.lanesInto? [⟨"graphics"⟩] board 2 = some lanes := by decide +kernel
  obtain ⟨found, hfound, hpast, -⟩ := lanesInto?_eq_lanesPast? hfull
    (Rundown.order_of_distinct Rundown.bulletin_sound.toDistinct) Nat.two_pos
    (show order.spot? 1 = some ⟨⟨"news"⟩, ⟨⟨"report"⟩, "Report", 90000, []⟩⟩ from rfl)
    (show board.line? ⟨"report"⟩ = some (.ofList [(⟨"graphics"⟩, some logo)]) from
      Board.line?_put ..) (fun layer hl => by
      obtain rfl := List.mem_singleton.mp hl
      exact hshown.symm) (Publisher.fresh .standard)
  obtain rfl := Option.some.inj (hinto.symm.trans hfound)
  exact ⟨hinto, hpast⟩

end RunningOrder

end OnAir
