import OnAir.Proofs.Update

set_option autoImplicit false

namespace OnAir

def Rundown.fullRun (rundown : Rundown) (settings : Settings) : Except Fault Report × Publisher :=
  (Publisher.fresh settings).recompute rundown none .runToEnd .unset

/-- The board shows on each line of a rundown what comes of the lines before, and no other line. -/
structure Board.Current (board : Board) (rundown : Rundown) : Prop where
  shows : board.Shows rundown.layerIds .start rundown.spots
  only : ∀ id, id ∉ rundown.lines.map (·.id) → board.line? id = none

variable {rundown : Rundown} {board board' : Board}

theorem Board.Current.sameLines (h : board.Current rundown) (h' : board'.Current rundown) :
    board.sameLines board' = true := by
  refine sameLines_iff.mpr fun id => ?_
  by_cases hid : id ∈ rundown.lines.map (·.id)
  · rw [← Rundown.map_lineId_spots] at hid
    obtain ⟨spot, hs, rfl⟩ := List.mem_map.mp hid
    exact h.shows.unique h'.shows spot hs
  · rw [h.only id hid, h'.only id hid]

namespace Publisher

theorem recompute_of_sound (h : rundown.Sound) (publisher : Publisher) :
    ∃ report new, publisher.recompute rundown none .runToEnd .unset = (.ok report, new) ∧
      Refreshed rundown [] publisher.board new.board :=
  update_runToEnd h (List.nil_append rundown.spots).symm rfl trivial

theorem sound_of_recompute {publisher new : Publisher} {report : Report}
    (h : publisher.recompute rundown none .runToEnd .unset = (.ok report, new)) :
    rundown.Sound :=
  Rundown.sound_of_checks (update_ok h).1
    (checks_of_update (List.nil_append rundown.spots).symm rfl trivial h)

end Publisher

namespace Rundown

theorem fullRun_of_sound (h : rundown.Sound) (settings : Settings) :
    ∃ report full, rundown.fullRun settings = (.ok report, full) ∧ full.board.Current rundown := by
  obtain ⟨report, full, hrun, refreshed⟩ := (Publisher.fresh settings).recompute_of_sound h
  refine ⟨report, full, hrun, refreshed.shows, fun id hid => ?_⟩
  rcases refreshed.dropped id hid with hnone | ⟨-, hold⟩
  · exact hnone
  · exact hold

theorem fullRun_ok {settings : Settings} {report : Report} {full : Publisher}
    (h : rundown.fullRun settings = (.ok report, full)) :
    rundown.Sound ∧ full.board.Current rundown := by
  have sound := Publisher.sound_of_recompute h
  obtain ⟨report', full', hrun, current⟩ := fullRun_of_sound sound settings
  obtain ⟨-, rfl⟩ := Prod.mk.inj (h.symm.trans hrun)
  exact ⟨sound, current⟩

/-- Three lines in two segments, with a logo that stays on air from the first line on. -/
def bulletin : Rundown where
  id := ⟨"bulletin"⟩
  name := "Bulletin"
  active := true
  layers := [⟨⟨"graphics"⟩, "Graphics", .graphics⟩]
  segments := [
    ⟨⟨"news"⟩, "News", [
      ⟨⟨"headlines"⟩, "Headlines", 30000, [⟨⟨"logo"⟩, ⟨"graphics"⟩, 0, .nextItem, .empty⟩]⟩,
      ⟨⟨"report"⟩, "Report", 90000, []⟩]⟩,
    ⟨⟨"outlook"⟩, "Outlook", [⟨⟨"weather"⟩, "Weather", 60000, []⟩]⟩]

theorem bulletin_sound : bulletin.Sound :=
  ⟨⟨by decide, by decide, by decide, by decide⟩, by decide, by decide⟩

end Rundown

namespace Publisher

/-- A run to the end from some line is as good as one from the first, if the board shows what a full
run shows on the lines before. Whatever else it shows goes or is made right. -/
theorem recompute_runToEnd_eq_fullRun {settings : Settings} {report : Report} {full : Publisher}
    (hfull : rundown.fullRun settings = (.ok report, full)) {index : Nat} {spot : Spot}
    (hspot : rundown.spots[index]? = some spot) (publisher : Publisher)
    (held : ∀ earlier ∈ rundown.spots.take index,
      publisher.board.line? earlier.line.id = full.board.line? earlier.line.id) :
    ∃ report' result,
      publisher.recompute rundown (some spot.line.id) .runToEnd .unset = (.ok report', result) ∧
      ∀ other ∈ rundown.spots,
        result.board.line? other.line.id = full.board.line? other.line.id := by
  obtain ⟨sound, current⟩ := Rundown.fullRun_ok hfull
  obtain ⟨hsplit, hlength⟩ := split_of_getElem? hspot
  have hi := startIndex_of_split (hsplit ▸ sound.lineIds_nodup rfl)
  have shows := current.shows
  rw [hsplit] at shows
  have hbefore : publisher.board.Shows rundown.layerIds .start (rundown.spots.take index) :=
    (Board.shows_congr held).mpr (Board.shows_append.mp shows).1
  obtain ⟨report', result, hupdate, refreshed⟩ := update_runToEnd sound hsplit hi hbefore
  exact ⟨report', result, hupdate, refreshed.shows.unique current.shows⟩

/-- The board has no entry for the weather, nothing on the report, and a line that is long gone. -/
theorem recompute_report_eq_fullRun :
    let full := (Rundown.bulletin.fullRun .standard).2
    let board := ((full.board.put ⟨"report"⟩ .empty).drop ⟨"weather"⟩).put ⟨"encore"⟩ .empty
    ∃ report result,
      Publisher.recompute ⟨.standard, board⟩ Rundown.bulletin (some ⟨"report"⟩) .runToEnd .unset =
        (.ok report, result) ∧
      ∀ other ∈ Rundown.bulletin.spots,
        result.board.line? other.line.id = full.board.line? other.line.id := by
  intro full board
  obtain ⟨report, full', hfull, -⟩ := Rundown.fullRun_of_sound Rundown.bulletin_sound .standard
  have heq : full = full' := congrArg Prod.snd hfull
  refine recompute_runToEnd_eq_fullRun (heq ▸ hfull)
    (show Rundown.bulletin.spots[1]? = some ⟨⟨"news"⟩, ⟨⟨"report"⟩, "Report", 90000, []⟩⟩ from rfl)
    ⟨.standard, board⟩ fun earlier hm => ?_
  obtain rfl := List.mem_singleton.mp hm
  exact (Board.line?_put ..).trans ((Board.line?_drop ..).trans (Board.line?_put ..))

end Publisher

end OnAir
