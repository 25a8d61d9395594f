import OnAir.Proofs.Coverage
import OnAir.Proofs.Made
import OnAir.Proofs.Session

set_option autoImplicit false

namespace OnAir

namespace Rundown

def place? (rundown : Rundown) (id : Id .line) : Option Nat :=
  rundown.lines.findIdx? fun line => decide (line.id = id)

def lineAt? (rundown : Rundown) (index : Nat) : Option (Id .line) :=
  rundown.lines[index]?.map (·.id)

def linesFrom (rundown : Rundown) : Option (Id .line) → List Line
  | none => []
  | some id => rundown.lines.dropWhile fun line => decide (line.id ≠ id)

variable {rundown : Rundown}

theorem place?_eq_index? (rundown : Rundown) (id : Id .line) :
    rundown.place? id = RunningOrder.index? ⟨rundown.spots⟩ id := rundown.findIdx?_lines id

theorem lineAt?_eq_spot? (rundown : Rundown) (index : Nat) :
    rundown.lineAt? index = (RunningOrder.spot? ⟨rundown.spots⟩ index).map (·.line.id) := by
  rw [lineAt?, ← rundown.spots_map_line, List.getElem?_map, Option.map_map]
  rfl

theorem place?_of_split (distinct : rundown.Distinct) {before after : List Spot} {spot : Spot}
    (hs : rundown.spots = before ++ spot :: after) :
    rundown.place? spot.line.id = some before.length := by
  rw [place?_eq_index?, hs, RunningOrder.index?_of_split (distinct.lineIds_nodup hs)]

theorem lineAt?_of_split {before after : List Spot} (hs : rundown.spots = before ++ after) :
    rundown.lineAt? before.length = after.head?.map (·.line.id) := by
  rw [lineAt?_eq_spot?, RunningOrder.spot?, hs, List.getElem?_append_right (Nat.le_refl _),
    Nat.sub_self, List.head?_eq_getElem?]

theorem linesFrom_of_split (distinct : rundown.Distinct) {before after : List Spot}
    (hs : rundown.spots = before ++ after) :
    rundown.linesFrom (after.head?.map (·.line.id)) = after.map Spot.line := by
  cases after with
  | nil => rfl
  | cons spot after =>
    have hne : ∀ line ∈ before.map Spot.line, decide (line.id ≠ spot.line.id) = true := by
      intro line hl
      obtain ⟨earlier, he, rfl⟩ := List.mem_map.mp hl
      have hn := distinct.lineIds_nodup hs
      rw [List.map_append] at hn
      exact decide_eq_true ((List.nodup_append.mp hn).2.2 _ (List.mem_map_of_mem he) _
        List.mem_cons_self)
    rw [List.head?_cons, Option.map_some, linesFrom, ← rundown.spots_map_line, hs, List.map_append,
      List.dropWhile_append_of_pos hne, List.map_cons,
      List.dropWhile_cons_of_neg (by simp)]

end Rundown

namespace Edit

/-- The line from which the board has to be brought up to date: the one that the edit names or that
has the item it names, what stands where a line went away, or the first line in whose place a move
left another. -/
def startLine? (old new : Rundown) : Edit → Option (Id .line)
  | setItemDuration id _ | setItemReach id _ | setItemContent id _ | removeItem id =>
    (old.item? id).map (·.1.id)
  | insertItem line _ | setLineDuration line _ => some line
  | insertLine _ _ line => some line.id
  | removeLine line => (old.place? line).bind new.lineAt?
  | moveLine line _ _ => do
    let before ← old.place? line
    let after ← new.place? line
    new.lineAt? (min before after)
  | recompute start _ => start.or (new.lineAt? 0)

def runsToEnd : Edit → Bool
  | insertLine .. | removeLine _ | moveLine .. | recompute _ true => true
  | _ => false

end Edit

namespace Upkeep

def startLine? (new : Rundown) : Upkeep → Option (Id .line)
  | .recompute start _ _ => start.or (new.lineAt? 0)
  | .forget _ => none

def RunsToEnd : Upkeep → Prop
  | .recompute _ mode _ => mode = .runToEnd
  | .forget _ => True

end Upkeep

namespace Edit

variable {rundown changed : Rundown}

theorem owner_of_onItem (distinct : rundown.Distinct) {id : Id .item}
    {check : Item → Except Fault Unit} {f : Item → Item} {line : Id .line}
    (h : (Change.onItem id check f).apply rundown = (.ok line, changed)) :
    (rundown.item? id).map (·.1.id) = some line := by
  rw [Change.apply_onItem distinct] at h
  cases hitem : rundown.item? id with
  | none =>
    rw [hitem] at h
    exact nomatch congrArg Prod.fst h
  | some found =>
    rw [hitem] at h
    dsimp only at h
    split at h
    · exact nomatch congrArg Prod.fst h
    · exact congrArg some (Except.ok.inj (congrArg Prod.fst h))

theorem owner_of_removeItem (distinct : rundown.Distinct) {id : Id .item} {line : Id .line}
    {item : Item} (h : (Change.removeItem id).apply rundown = (.ok (line, item), changed)) :
    (rundown.item? id).map (·.1.id) = some line := by
  rw [Change.apply_removeItem distinct] at h
  cases hitem : rundown.item? id with
  | none =>
    rw [hitem] at h
    exact nomatch congrArg Prod.fst h
  | some found =>
    rw [hitem] at h
    exact congrArg some (congrArg Prod.fst (Except.ok.inj (congrArg Prod.fst h)))

/-- A line that is found both before and after a move names the place from which the board has to be
brought up to date. -/
theorem upkeep_of_moveLine {line : Id .line} {segment : Id .segment} {index : UInt64}
    {upkeep : Upkeep}
    (h : (moveLine line segment index).change.apply rundown = (.ok upkeep, changed)) :
    ∃ start, (moveLine line segment index).startLine? rundown changed = some start ∧
      upkeep = .runToEnd (some start) := by
  obtain ⟨⟨_, old⟩, _, hlocate, h⟩ := Change.bind_ok h
  obtain ⟨rfl, -, rfl, hold⟩ := Change.locate_ok hlocate
  obtain ⟨_, moved, hmove, h⟩ := Change.bind_ok h
  obtain ⟨⟨order, new⟩, _, hlocate', h⟩ := Change.bind_ok h
  obtain ⟨rfl, rfl⟩ := Change.pure_ok h
  obtain ⟨rfl, -, rfl, hnew⟩ := Change.locate_ok hlocate'
  have hlt : min old new < moved.spots.length := by
    obtain ⟨hlt, -⟩ := List.findIdx?_eq_some_iff_getElem.mp hnew
    exact Nat.lt_of_le_of_lt (Nat.min_le_right old new) hlt
  have hspot : RunningOrder.spot? ⟨moved.spots⟩ (min old new) = some moved.spots[min old new] :=
    List.getElem?_eq_getElem hlt
  refine ⟨moved.spots[min old new].line.id, ?_, by rw [hspot]; rfl⟩
  rw [startLine?, Rundown.place?_eq_index?, hold, Rundown.place?_eq_index?, hnew]
  change moved.lineAt? (min old new) = _
  rw [Rundown.lineAt?_eq_spot?, hspot]
  rfl

theorem startLine?_of_change (distinct : rundown.Distinct) {edit : Edit} {upkeep : Upkeep}
    (h : edit.change.apply rundown = (.ok upkeep, changed)) :
    upkeep.startLine? changed = edit.startLine? rundown changed ∧
      (edit.runsToEnd = true → upkeep.RunsToEnd) := by
  cases edit with
  | setItemDuration id duration =>
    obtain ⟨line, hitem, rfl⟩ := Change.map_ok h
    exact ⟨(owner_of_onItem distinct hitem).symm, nofun⟩
  | setItemReach id reach =>
    obtain ⟨line, hitem, rfl⟩ := Change.map_ok h
    exact ⟨(owner_of_onItem distinct hitem).symm, nofun⟩
  | setItemContent id content =>
    obtain ⟨line, hitem, rfl⟩ := Change.map_ok h
    exact ⟨(owner_of_onItem distinct hitem).symm, nofun⟩
  | insertItem line item =>
    obtain ⟨_, _, -, h⟩ := Change.bind_ok h
    obtain ⟨r, _, -, h⟩ := Change.bind_ok h
    dsimp only at h
    split at h
    · obtain ⟨_, _, hthrow, -⟩ := Change.bind_ok h
      exact (Change.throw_ok hthrow).elim
    · obtain ⟨_, -, rfl⟩ := Change.map_ok h
      exact ⟨rfl, nofun⟩
  | removeItem id =>
    obtain ⟨⟨line, item⟩, hremove, rfl⟩ := Change.map_ok h
    exact ⟨(owner_of_removeItem distinct hremove).symm, nofun⟩
  | setLineDuration line duration =>
    obtain ⟨_, -, rfl⟩ := Change.map_ok h
    exact ⟨rfl, nofun⟩
  | insertLine segment index line =>
    obtain ⟨_, _, -, h⟩ := Change.bind_ok h
    obtain ⟨_, -, rfl⟩ := Change.map_ok h
    exact ⟨rfl, fun _ => rfl⟩
  | removeLine line =>
    obtain ⟨-, -, before, spot, after, rfl, hold, hnew, rfl⟩ := removeLine_ok h
    have hstart : (removeLine spot.line.id).startLine? rundown changed =
        after.head?.map (·.line.id) := by
      rw [startLine?, Rundown.place?_of_split distinct hold, Option.bind_some,
        Rundown.lineAt?_of_split hnew]
    rw [hstart]
    cases after with
    | nil => exact ⟨rfl, fun _ => trivial⟩
    | cons next after => exact ⟨rfl, fun _ => rfl⟩
  | moveLine line segment index =>
    obtain ⟨start, hstart, rfl⟩ := upkeep_of_moveLine h
    exact ⟨hstart.symm, fun _ => rfl⟩
  | recompute start runToEnd =>
    obtain ⟨rfl, rfl⟩ := Change.pure_ok h
    refine ⟨rfl, fun hto => ?_⟩
    cases runToEnd with
    | true => rfl
    | false => exact nomatch hto

end Edit

namespace Publisher

variable {publisher result : Publisher} {rundown changed : Rundown} {start : Option (Id .line)}
  {mode : Mode} {removed : List (Id .line)} {index : Nat} {report : Report}

theorem lineAt?_of_startIndex (h : startIndex ⟨rundown.spots⟩ start = .ok index) :
    rundown.lineAt? index = start.or (rundown.lineAt? 0) := by
  cases start with
  | none =>
    obtain rfl := Except.ok.inj h
    rfl
  | some id =>
    rw [startIndex] at h
    cases hi : RunningOrder.index? ⟨rundown.spots⟩ id with
    | none => rw [hi] at h; cases h
    | some found =>
      rw [hi] at h
      obtain rfl := Except.ok.inj h
      obtain ⟨before, spot, after, hs, rfl, rfl⟩ := RunningOrder.split_of_index? hi
      exact Rundown.lineAt?_of_split hs

/-- An update of a board that was current starts at the line that it was told, since the board shows
on the line before just what a walk from the first line would have found. -/
theorem update_start (current : publisher.board.Current rundown)
    (h : publisher.update changed start mode .unset removed = (.ok report, result))
    (reworked : ∀ index, startIndex ⟨changed.spots⟩ start = .ok index →
      rundown.Reworked changed mode index removed) :
    report.start = start.or (changed.lineAt? 0) ∧
      (mode = .runToEnd → report.visited = (changed.linesFrom report.start).length ∧
        report.early = false) := by
  obtain ⟨distinct, index, first, pass, hi, hpass, hpublish⟩ := update_ok h
  obtain ⟨layers, -, before, old, new, after, hold, hnew, rfl, -⟩ := reworked index hi
  have shows := current.shows
  rw [hold, ← layers] at shows
  have hbefore := (Board.shows_append.mp shows).1
  have hitems := distinct.itemIds_nodup hnew
  have hlineAt := lineAt?_of_startIndex hi
  rw [hnew] at hpass
  have hfirst : first = before.length := by
    obtain ⟨_, _, -, -, ⟨hfirst, -⟩ | ⟨hnone, -⟩⟩ := pass_ok hpass
    · exact hfirst
    · rw [RunningOrder.lanesInto?_of_shows hitems rfl hbefore] at hnone
      cases hnone
  have hstart : report.start = changed.lineAt? before.length := by
    rw [Rundown.lineAt?_eq_spot?, ← hfirst]
    exact (congrArg (fun r => r.1.start) hpublish).symm
  refine ⟨hstart.trans hlineAt, fun hmode => ?_⟩
  subst hmode
  have hall : pass.visited = (new ++ after).length ∧ pass.early = false := by
    rw [pass_runToEnd hitems hbefore] at hpass
    cases hchecks : (new ++ after).forM fun spot => spot.line.check changed.layerIds with
    | error fault => rw [hchecks] at hpass; cases hpass
    | ok =>
      rw [hchecks] at hpass
      obtain ⟨-, rfl⟩ := Prod.mk.inj (Except.ok.inj hpass)
      exact ⟨rfl, rfl⟩
  have hvisited : report.visited = pass.visited :=
    (congrArg (fun r => r.1.visited) hpublish).symm
  have hearly : report.early = pass.early := (congrArg (fun r => r.1.early) hpublish).symm
  refine ⟨?_, hearly.trans hall.2⟩
  rw [hstart, Rundown.lineAt?_of_split hnew, Rundown.linesFrom_of_split distinct hnew,
    List.length_map, hvisited, hall.1]

end Publisher

namespace Session

variable {session : Session} {report : Report}

theorem Coherent.apply_start (h : session.Coherent) {edit : Edit}
    (hok : (session.apply edit .unset).1 = .ok report) :
    let changed := (session.apply edit .unset).2.rundown
    report.start = edit.startLine? session.rundown changed ∧
      (edit.runsToEnd = true → report.visited = (changed.linesFrom report.start).length ∧
        report.early = false) := by
  obtain ⟨upkeep, hchange, hkeep⟩ := apply_of_ok hok
  obtain ⟨hstart, hto⟩ := Edit.startLine?_of_change h.sound.toDistinct hchange
  have effect := Edit.effect_of_change hchange
  cases upkeep with
  | recompute start mode removed =>
    have distinct := (Publisher.update_ok hkeep).1
    obtain ⟨hfirst, hvisited⟩ :=
      Publisher.update_start h.current hkeep fun _ hi => effect.reworked distinct hi
    exact ⟨hfirst.trans hstart, fun hruns => hvisited (hto hruns)⟩
  | forget line =>
    obtain ⟨hreport, -⟩ := Prod.mk.inj hkeep
    obtain rfl := Except.ok.inj hreport
    exact ⟨hstart, fun _ => ⟨rfl, rfl⟩⟩

/-- After any edits of a session, each made or refused, the next one that succeeds is followed up from
the line that it tells, and never from an earlier one. Where lines change places, come or go, all
lines from there to the last one are visited: none, where the last line went away. -/
theorem apply_startLine? {rundown : Rundown} {settings : Settings}
    (h : start rundown settings = .ok session) (edits : List (Edit × Token)) {edit : Edit}
    (hok : ((session.run edits).2.apply edit .unset).1 = .ok report) :
    let old := (session.run edits).2.rundown
    let new := ((session.run edits).2.apply edit .unset).2.rundown
    report.start = edit.startLine? old new ∧
      (edit.runsToEnd = true →
        report.visited = (new.linesFrom report.start).length ∧ report.early = false) :=
  (run_coherent (start_coherent h) edits).apply_start hok

theorem apply_bulletin_startLine? :
    let session : Session := ⟨Rundown.bulletin, (Rundown.bulletin.fullRun .standard).2⟩
    let shorter := (session.run [(.setLineDuration ⟨"report"⟩ 45000, .unset)]).2
    ∃ report, (shorter.apply (.moveLine ⟨"weather"⟩ ⟨"news"⟩ 1) .unset).1 = .ok report ∧
      report.start = some ⟨"weather"⟩ ∧ report.visited = 2 ∧ report.early = false := by
  intro session shorter
  let report : Report := ⟨some ⟨"weather"⟩, .runToEnd, 2, 2, false, 0, 3⟩
  have hok : (shorter.apply (.moveLine ⟨"weather"⟩ ⟨"news"⟩ 1) .unset).1 = .ok report := by
    decide +kernel
  obtain ⟨hstart, hruns⟩ := apply_startLine? start_bulletin _ hok
  exact ⟨report, hok, hstart, hruns rfl⟩

end Session

end OnAir
