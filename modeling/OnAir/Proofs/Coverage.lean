import Mathlib.Data.List.Flatten
import OnAir.Proofs.Repeat

set_option autoImplicit false

namespace OnAir

def Lineup.Covers (lineup : Lineup) (layers : List (Id .layer)) : Prop :=
  ∀ layer, (lineup.get? layer).isSome = true ↔ layer ∈ layers

theorem Lineup.covers_ofList (layers : List (Id .layer)) (entry : Id .layer → Option Airing) :
    Lineup.Covers (.ofList (layers.map fun y => (y, entry y))) layers := by
  intro y
  rw [IdMap.ofList, IdMap.get?_insertAll_map]
  split
  · next hy => exact iff_of_true rfl hy
  · next hy => exact iff_of_false Bool.false_ne_true hy

theorem mem_middle_iff {α : Type} {before middle after : List α}
    (hn : (before ++ (middle ++ after)).Nodup) {index : Nat} {x : α}
    (h : (before ++ (middle ++ after))[index]? = some x) :
    x ∈ middle ↔ before.length ≤ index ∧ index < before.length + middle.length := by
  constructor
  · intro hx
    obtain ⟨i, hi, rfl⟩ := List.mem_iff_getElem.mp hx
    have hat : (before ++ (middle ++ after))[before.length + i]? = some middle[i] := by
      rw [List.getElem?_append_right (Nat.le_add_right ..), Nat.add_sub_cancel_left,
        List.getElem?_append_left hi, List.getElem?_eq_getElem hi]
    obtain ⟨hlt, -⟩ := List.getElem?_eq_some_iff.mp h
    obtain rfl := (List.getElem?_inj hlt hn).mp (h.trans hat.symm)
    omega
  · rintro ⟨hfrom, hto⟩
    rw [List.getElem?_append_right hfrom, List.getElem?_append_left (by omega)] at h
    exact List.mem_of_getElem? h

namespace Walk

variable {walk : Walk} {mode : Mode} {last : Option (Id .segment)} {flow : Id .layer → Flow}
  {visited : Nat} {spots : List Spot} {pass : Pass} {found : List (Spot × Lineup)}

theorem mem_write {id : Id .line} {lineup : Lineup} {note : Id .line × Lineup} :
    note ∈ walk.write id lineup ↔ walk.board.line? id ≠ some lineup ∧ note = (id, lineup) := by
  rw [write]
  split
  · next h => exact iff_of_false List.not_mem_nil fun hn => hn.1 h
  · next h => exact List.mem_singleton.trans (and_iff_right h).symm

def notes (walk : Walk) (found : List (Spot × Lineup)) : List (Id .line × Lineup) :=
  found.flatMap fun f => walk.write f.1.line.id f.2

theorem notes_keys_sublist (walk : Walk) (found : List (Spot × Lineup)) :
    ((walk.notes found).map (·.1)).Sublist (found.map (·.1.line.id)) := by
  rw [notes, List.map_flatMap, List.map_eq_flatMap]
  exact List.Sublist.flatMap_right _ fun f _ => walk.write_keys_sublist f.1.line.id f.2

theorem line?_putAll_notes (walk : Walk) (hn : (found.map (·.1.line.id)).Nodup)
    {f : Spot × Lineup} (hf : f ∈ found) :
    (walk.board.putAll (walk.notes found)).line? f.1.line.id = some f.2 := by
  by_cases hsame : walk.board.line? f.1.line.id = some f.2
  · refine (Board.line?_putAll_of_not_mem fun hm => ?_).trans hsame
    obtain ⟨note, hnote, hid⟩ := List.mem_map.mp hm
    obtain ⟨g, hg, hwrite⟩ := List.mem_flatMap.mp hnote
    obtain ⟨hne, rfl⟩ := mem_write.mp hwrite
    obtain rfl := List.inj_on_of_nodup_map hn hg hf hid
    exact hne hsame
  · refine Board.line?_putAll_of_mem ((walk.notes_keys_sublist found).nodup hn) ?_
    exact List.mem_flatMap.mpr ⟨f, hf, mem_write.mpr ⟨hsame, rfl⟩⟩

/-- A walk that succeeds has found a lineup of its layers on each of the spots up to where it stopped.
It stops early only if it may. -/
theorem run_found
    (h : walk.run mode .unset last (walk.lanes flow) visited spots = .ok (.done pass)) :
    ∃ found left, spots = found.map Prod.fst ++ left ∧
      pass = ⟨walk.notes found, visited + found.length, !left.isEmpty⟩ ∧
      (∀ f ∈ found, f.2.Covers walk.layers) ∧ (mode = .runToEnd → left = []) := by
  induction spots generalizing flow last visited pass with
  | nil =>
    obtain rfl := Outcome.done.inj (Except.ok.inj h)
    exact ⟨[], [], rfl, rfl, fun _ hf => absurd hf List.not_mem_nil, fun _ => rfl⟩
  | cons spot rest ih =>
    obtain ⟨-, lineup, lanes, after, hline, rfl, hafter⟩ := run_cons_done h
    obtain ⟨entry, next, -, rfl, rfl⟩ := steps_of_line hline
    -- Settled or not, every lane gives its layer an entry.
    have covers := Lineup.covers_ofList walk.layers entry
    generalize IdMap.ofList (walk.layers.map fun y => (y, entry y)) = lineup at covers
    rcases hafter with ⟨hstop, rfl⟩ | hafter
    · refine ⟨[(spot, lineup)], rest, rfl, rfl, List.forall_mem_singleton.mpr covers, fun hm => ?_⟩
      rw [hm] at hstop
      exact absurd hstop Bool.false_ne_true
    · obtain ⟨found, left, rfl, rfl, hcovers, hleft⟩ := ih hafter
      refine ⟨(spot, lineup) :: found, left, rfl, ?_, List.forall_mem_cons.mpr ⟨covers, hcovers⟩, hleft⟩
      rw [List.length_cons, Nat.add_comm found.length, ← Nat.add_assoc]
      rfl

end Walk

namespace Report

/-- The index of the line that a recompute started from; zero where there was none. -/
def first (report : Report) (rundown : Rundown) : Nat :=
  (report.start.bind fun id => rundown.lines.findIdx? fun line => decide (line.id = id)).getD 0

/-- What a recompute does to a board, told from what it reports. The lines of the rundown from the
reported start on, as many as were visited, are walked. -/
structure Extent (report : Report) (rundown : Rundown) (drops : Bool) (old new : Board) : Prop where
  start : report.start = rundown.lines[report.first rundown]?.map (·.id)
  within : report.first rundown + report.visited ≤ rundown.lines.length
  early : report.early = true ↔ report.first rundown + report.visited < rundown.lines.length
  /-- Lines before and behind the walked ones are left alone. -/
  kept : ∀ (index : Nat) (line : Line), rundown.lines[index]? = some line →
    index < report.first rundown ∨ report.first rundown + report.visited ≤ index →
      new.line? line.id = old.line? line.id
  walked : ∀ (index : Nat) (line : Line), rundown.lines[index]? = some line →
    report.first rundown ≤ index → index < report.first rundown + report.visited →
      ∃ lineup, new.line? line.id = some lineup ∧ lineup.Covers rundown.layerIds
  /-- A walk over all lines drops the lines of others, if it is to. -/
  others : ∀ id, id ∉ rundown.lines.map (·.id) →
    new.line? id =
      if report.first rundown = 0 ∧ report.first rundown + report.visited = rundown.lines.length ∧
        drops = true then none
      else old.line? id

end Report

theorem Rundown.findIdx?_lines (rundown : Rundown) (id : Id .line) :
    rundown.lines.findIdx? (fun line => decide (line.id = id)) =
      RunningOrder.index? ⟨rundown.spots⟩ id := by
  rw [← spots_map_line, List.findIdx?_map]
  rfl

/-- A pass has found lineups on some spots of a running order, one after another. -/
structure Pass.Found (pass : Pass) (walk : Walk) (rundown : Rundown) (before : List Spot)
    (found : List (Spot × Lineup)) (left : List Spot) : Prop where
  order : rundown.spots = before ++ (found.map Prod.fst ++ left)
  starts : found.map Prod.fst ++ left = [] → before = []
  holds : pass = ⟨walk.notes found, found.length, !left.isEmpty⟩
  covers : ∀ f ∈ found, f.2.Covers walk.layers

namespace Pass.Found

variable {pass : Pass} {walk : Walk} {rundown : Rundown} {before left : List Spot}
  {found : List (Spot × Lineup)}

theorem visited (h : pass.Found walk rundown before found left) : pass.visited = found.length :=
  congrArg Pass.visited h.holds

theorem length_lines (h : pass.Found walk rundown before found left) :
    rundown.lines.length = before.length + pass.visited + left.length := by
  rw [← rundown.spots_map_line, h.order, h.visited]
  simp only [List.length_map, List.length_append, Nat.add_assoc]

theorem early_iff (h : pass.Found walk rundown before found left) :
    pass.early = true ↔ before.length + pass.visited < rundown.lines.length := by
  rw [h.length_lines, congrArg Pass.early h.holds]
  cases left with
  | nil => exact iff_of_false Bool.false_ne_true (Nat.lt_irrefl _)
  | cons spot rest => exact iff_of_true rfl (Nat.lt_add_of_pos_right (Nat.succ_pos _))

theorem lineIds (h : pass.Found walk rundown before found left) :
    rundown.lines.map (·.id) =
      before.map (·.line.id) ++ (found.map (·.1.line.id) ++ left.map (·.line.id)) := by
  rw [← rundown.map_lineId_spots, h.order, List.map_append, List.map_append, List.map_map]
  rfl

theorem keys_sublist (h : pass.Found walk rundown before found left) :
    (pass.writes.map (·.1)).Sublist (found.map (·.1.line.id)) :=
  h.holds ▸ walk.notes_keys_sublist found

theorem mem_iff (h : pass.Found walk rundown before found left) (distinct : rundown.Distinct)
    {index : Nat} {line : Line} (hline : rundown.lines[index]? = some line) :
    line.id ∈ found.map (·.1.line.id) ↔
      before.length ≤ index ∧ index < before.length + pass.visited := by
  have hid := congrArg (Option.map Line.id) hline
  rw [← List.getElem?_map, h.lineIds] at hid
  rw [h.visited, mem_middle_iff (h.lineIds ▸ distinct.lines) hid, List.length_map, List.length_map]

end Pass.Found

namespace Publisher

variable {publisher result : Publisher} {rundown : Rundown} {mode : Mode} {token : Token}
  {pass : Pass} {index first : Nat} {before left : List Spot} {found : List (Spot × Lineup)}

theorem startIndex_eq_zero {start : Option (Id .line)}
    (h : startIndex ⟨rundown.spots⟩ start = .ok index) (hindex : rundown.spots.length ≤ index) :
    index = 0 := by
  cases start with
  | none => exact (Except.ok.inj h).symm
  | some id =>
    rw [startIndex] at h
    cases hfound : RunningOrder.index? ⟨rundown.spots⟩ id with
    | none => rw [hfound] at h; cases h
    | some found =>
      rw [hfound] at h
      obtain rfl := Except.ok.inj h
      obtain ⟨hlt, -⟩ := List.findIdx?_eq_some_iff_getElem.mp hfound
      exact absurd hlt (Nat.not_lt.mpr hindex)

/-- A pass that succeeds has found lineups from its first spot on, and, if it was to run to the end, on
all spots from there. -/
theorem pass_found (hindex : rundown.spots.length ≤ index → index = 0)
    (h : publisher.pass rundown.layerIds ⟨rundown.spots⟩ index mode .unset = .ok (first, pass)) :
    ∃ before found left,
      pass.Found (publisher.walk rundown.layerIds) rundown before found left ∧
      before.length = first ∧ (mode = .runToEnd → left = []) := by
  obtain ⟨lanes, mode', hlanes, hrun, hstart⟩ := pass_ok h
  obtain ⟨carry, rfl⟩ := RunningOrder.lanesInto?_live hlanes
  obtain ⟨found, left, hsplit, hpass, covers, hleft⟩ := Walk.run_found hrun
  have hfirst : rundown.spots.length ≤ first → first = 0 := by
    rcases hstart with ⟨rfl, -⟩ | ⟨-, rfl, -⟩
    · exact hindex
    · exact fun _ => rfl
  have hmode : mode = .runToEnd → mode' = .runToEnd := by
    intro hm
    rcases hstart with ⟨-, hmode⟩ | ⟨-, -, rfl⟩
    · cases mode' with
      | runToEnd => rfl
      | suffix => exact nomatch hm.symm.trans (hmode rfl)
    · rfl
  change rundown.spots.drop first = _ at hsplit
  rw [Nat.zero_add] at hpass
  refine ⟨rundown.spots.take first, found, left, ⟨?_, ?_, hpass, covers⟩, ?_, hleft ∘ hmode⟩
  · rw [← hsplit, List.take_append_drop]
  · rw [← hsplit, List.drop_eq_nil_iff, List.take_eq_nil_iff]
    exact fun hle => .inl (hfirst hle)
  · rw [List.length_take]
    omega

theorem first_publish (publisher : Publisher) {walk : Walk}
    (h : pass.Found walk rundown before found left) (distinct : rundown.Distinct) (mode : Mode) :
    (publisher.publish ⟨rundown.spots⟩ mode before.length pass []).1.first rundown =
      before.length := by
  change ((rundown.spots[before.length]?.map (·.line.id)).bind _).getD 0 = before.length
  have hs := h.order
  have hnil := h.starts
  generalize found.map Prod.fst ++ left = since at hs hnil
  cases since with
  | nil =>
    rw [hs, hnil rfl]
    rfl
  | cons spot rest =>
    have hn := distinct.lineIds_nodup hs
    have hspot : rundown.spots[before.length]? = some spot := by
      rw [hs, List.getElem?_append_right (Nat.le_refl _), Nat.sub_self, List.getElem?_cons_zero]
    rw [hspot, Option.map_some, Option.bind_some, rundown.findIdx?_lines, hs,
      RunningOrder.index?_of_split hn]
    rfl

theorem publish_extent (h : pass.Found (publisher.walk rundown.layerIds) rundown before found left)
    (distinct : rundown.Distinct) (mode : Mode) :
    (publisher.publish ⟨rundown.spots⟩ mode before.length pass []).1.Extent rundown
      publisher.settings.dropsOrphans publisher.board
      (publisher.publish ⟨rundown.spots⟩ mode before.length pass []).2.board := by
  have hfirst := first_publish publisher h distinct mode
  have hlength := h.length_lines
  have hboard {index : Nat} {line : Line} (hline : rundown.lines[index]? = some line) :
      (publisher.publish ⟨rundown.spots⟩ mode before.length pass []).2.board.line? line.id =
        (publisher.board.putAll pass.writes).line? line.id :=
    line?_publish_of_contains (RunningOrder.contains_iff.mpr
      (Rundown.mem_lineIds.mpr (List.mem_map_of_mem (List.mem_of_getElem? hline)))) ..
  constructor
  case start =>
    rw [hfirst, ← rundown.spots_map_line, List.getElem?_map, Option.map_map]
    rfl
  case within =>
    rw [hfirst, hlength]
    exact Nat.le_add_right _ _
  case early => rw [hfirst]; exact h.early_iff
  case kept =>
    intro index line hline hindex
    rw [hfirst] at hindex
    refine (hboard hline).trans (Board.line?_putAll_of_not_mem fun hm => ?_)
    obtain ⟨hfrom, hto⟩ := (h.mem_iff distinct hline).mp (h.keys_sublist.subset hm)
    exact hindex.elim (Nat.not_lt.mpr hfrom) (Nat.not_le.mpr hto)
  case walked =>
    intro index line hline hfrom hto
    rw [hfirst] at hfrom hto
    obtain ⟨f, hf, hid⟩ := List.mem_map.mp ((h.mem_iff distinct hline).mpr ⟨hfrom, hto⟩)
    have hn := h.lineIds ▸ distinct.lines
    rw [List.nodup_append, List.nodup_append] at hn
    refine ⟨f.2, ?_, h.covers f hf⟩
    rw [hboard hline, ← hid, h.holds]
    exact (publisher.walk rundown.layerIds).line?_putAll_notes hn.2.1.1 hf
  case others =>
    intro id hid
    have habsent : RunningOrder.contains ⟨rundown.spots⟩ id = false :=
      Bool.eq_false_iff.mpr fun hc => hid (Rundown.mem_lineIds.mp (RunningOrder.contains_iff.mp hc))
    have hw : id ∉ pass.writes.map (·.1) := fun hm => hid <|
      h.lineIds ▸ List.mem_append_right _ (List.mem_append_left _ (h.keys_sublist.subset hm))
    have hall : pass.early = false ↔ before.length + pass.visited = rundown.lines.length := by
      rw [Bool.eq_false_iff, Ne, h.early_iff]
      omega
    rw [line?_publish_of_not_contains habsent hw, hfirst]
    refine if_congr ?_ rfl rfl
    simp only [List.not_mem_nil, false_or, dropsOthers, Bool.and_eq_true, decide_eq_true_eq,
      Bool.not_eq_true', and_assoc, hall]
    rfl

/-- What a recompute that succeeds does to the board, whatever the board showed. One that is to run to
the end does not stop early. -/
theorem recompute_extent {start : Option (Id .line)} {report : Report}
    (h : publisher.recompute rundown start mode token = (.ok report, result)) :
    report.Extent rundown publisher.settings.dropsOrphans publisher.board result.board ∧
      (mode = .runToEnd → report.early = false) := by
  obtain ⟨distinct, index, first, pass, hi, hpass, hpublish⟩ := update_ok (update_of_token h)
  obtain ⟨before, found, left, hfound, rfl, hleft⟩ := pass_found (startIndex_eq_zero hi) hpass
  have extent := publish_extent hfound distinct mode
  rw [hpublish] at extent
  refine ⟨extent, fun hm => ?_⟩
  rw [hfound.holds, hleft hm] at hpublish
  exact congrArg (fun r => r.1.early) hpublish.symm

/-- The board shows nothing on the headlines, so a run from the report on starts with them, and a line
of another rundown goes. -/
theorem recompute_report_extent :
    let stale : Publisher := ⟨.standard, Board.empty.put ⟨"encore"⟩ .empty⟩
    let run := stale.recompute Rundown.bulletin (some ⟨"report"⟩) .runToEnd .unset
    let report : Report := ⟨some ⟨"headlines"⟩, .runToEnd, 3, 3, false, 1, 1⟩
    run.1 = .ok report ∧ report.Extent Rundown.bulletin true stale.board run.2.board := by
  intro stale run report
  have hrun : run.1 = .ok report := by rfl
  exact ⟨hrun, (recompute_extent (Prod.ext hrun rfl)).1⟩

end Publisher

end OnAir
