import OnAir.Proofs.Edit
import OnAir.Proofs.Made

set_option autoImplicit false

namespace OnAir

namespace Rundown

variable {rundown rest changed : Rundown} {line : Line} {segment : Id .segment} {index : Nat}

/-- The only line with an identifier stands in the first segment with another one, behind as many of
the other lines there as the index says, or behind all of them. Everything else is as it was. -/
structure LineMoved (rundown : Rundown) (line : Line) (segment : Id .segment) (index : Nat)
    (changed : Rundown) : Prop where
  once : rundown.lines.filter (fun other => other.id = line.id) = [line]
  still : changed.lines.filter (fun other => other.id = line.id) = [line]
  others : changed.withoutLine line.id = rundown.withoutLine line.id
  count : changed.lines.length = rundown.lines.length
  place : ∃ before target after, changed.segments = before ++ target :: after ∧
    (∀ earlier ∈ before, earlier.id ≠ segment) ∧ target.id = segment ∧
    target.lines[min index (target.lines.filter fun other => other.id ≠ line.id).length]? = some line

section Extended

variable {extended : Rundown}

theorem ExtendedBy.lines (h : rundown.ExtendedBy extended line) :
    ∃ before after, rundown.lines = before ++ after ∧ extended.lines = before ++ line :: after := by
  obtain ⟨-, before, _, after, hold, hnew⟩ := h
  refine ⟨before.map Spot.line, after.map Spot.line, ?_, ?_⟩
  · rw [← spots_map_line, hold, List.map_append]
  · rw [← spots_map_line, hnew, List.map_append, List.map_cons]

theorem ExtendedBy.length_lines (h : rundown.ExtendedBy extended line) :
    extended.lines.length = rundown.lines.length + 1 := by
  obtain ⟨before, after, hold, hnew⟩ := h.lines
  rw [hold, hnew, List.length_append, List.length_append, List.length_cons, Nat.add_assoc]

theorem ExtendedBy.count_line (h : rundown.ExtendedBy extended line) :
    (extended.lines.map (·.id)).count line.id = (rundown.lines.map (·.id)).count line.id + 1 := by
  obtain ⟨before, after, hold, hnew⟩ := h.lines
  simp only [hold, hnew, List.map_append, List.map_cons, List.count_append, List.count_cons_self,
    Nat.add_assoc]

theorem ExtendedBy.filter_line (h : rundown.ExtendedBy extended line)
    (fresh : line.id ∉ rundown.lines.map (·.id)) :
    extended.lines.filter (fun other => other.id = line.id) = [line] := by
  obtain ⟨before, after, hold, hnew⟩ := h.lines
  have none {lines : List Line} (hsub : lines ⊆ rundown.lines) :
      lines.filter (fun other => other.id = line.id) = [] := by
    refine List.filter_eq_nil_iff.mpr fun other hm heq => fresh ?_
    exact of_decide_eq_true heq ▸ List.mem_map_of_mem (hsub hm)
  rw [hnew, List.filter_append, List.filter_cons_of_pos (by simp),
    none (hold ▸ List.subset_append_left before after),
    none (hold ▸ List.subset_append_right before after)]
  rfl

end Extended

theorem withoutLine_of_relined {id : Id .line} {before after : List Segment} {held : Segment}
    {lines : List Line} (hsplit : rundown.segments = before ++ held :: after)
    (h : lines.filter (fun other => other.id ≠ id) = held.lines.filter fun other => other.id ≠ id) :
    { rundown with segments := before ++ { held with lines } :: after }.withoutLine id =
      rundown.withoutLine id := by
  rw [withoutLine, withoutLine, reline, reline, hsplit]
  simp only [List.map_append, List.map_cons, h]

theorem LinePut.withoutLine (h : rundown.LinePut segment index line changed) :
    changed.withoutLine line.id = rundown.withoutLine line.id := by
  obtain ⟨before, held, after, -, -, hsplit, rfl⟩ := h
  refine withoutLine_of_relined hsplit ?_
  rw [filter_line_append_cons, List.take_append_drop]

theorem LineTaken.withoutLine (h : rundown.LineTaken line rest) :
    rest.withoutLine line.id = rundown.withoutLine line.id := by
  obtain ⟨before, held, after, first, last, -, hsegments, hsplit, rfl⟩ := h
  refine withoutLine_of_relined hsegments ?_
  rw [hsplit, filter_line_append_cons]

theorem LinePut.place (h : rundown.LinePut segment index line changed)
    (fresh : line.id ∉ rundown.lines.map (·.id)) :
    ∃ before target after, changed.segments = before ++ target :: after ∧
      (∀ earlier ∈ before, earlier.id ≠ segment) ∧ target.id = segment ∧
      target.lines[min index (target.lines.filter fun other => other.id ≠ line.id).length]? =
        some line := by
  obtain ⟨before, held, after, hbefore, hid, hsplit, rfl⟩ := h
  refine ⟨before, _, after, rfl, hbefore, hid, ?_⟩
  have hheld : ∀ other ∈ held.lines, other.id ≠ line.id := by
    intro other ho heq
    have hmem : other ∈ rundown.lines :=
      List.mem_flatMap_of_mem (hsplit ▸ List.mem_append_right before List.mem_cons_self) ho
    exact fresh (heq ▸ List.mem_map_of_mem hmem)
  rw [filter_line_append_cons, List.take_append_drop, filter_line_eq_self hheld]
  have hlength : (held.lines.take (min index held.lines.length)).length =
      min index held.lines.length := by
    rw [List.length_take]
    omega
  rw [List.getElem?_append_right (Nat.le_of_eq hlength), hlength, Nat.sub_self]
  rfl

theorem LineTaken.again_iff (taken : rundown.LineTaken line rest) :
    line.id ∈ rest.lines.map (·.id) ↔ 1 < (rundown.lines.map (·.id)).count line.id := by
  rw [taken.extendedBy.count_line, ← List.count_pos_iff]
  omega

theorem LineTaken.once_iff (taken : rundown.LineTaken line rest) :
    line.id ∉ rest.lines.map (·.id) ↔ (rundown.lines.map (·.id)).count line.id = 1 := by
  rw [taken.extendedBy.count_line, ← List.count_eq_zero]
  omega

/-- What is taken out and put in again has moved, if no second line has its identifier. -/
theorem LineTaken.moved (taken : rundown.LineTaken line rest)
    (fresh : line.id ∉ rest.lines.map (·.id)) (put : rest.LinePut segment index line changed) :
    rundown.LineMoved line segment index changed where
  once := taken.extendedBy.filter_line fresh
  still := put.extendedBy.filter_line fresh
  others := put.withoutLine.trans taken.withoutLine
  count := put.extendedBy.length_lines.trans taken.extendedBy.length_lines.symm
  place := put.place fresh

def rerun : Rundown where
  id := ⟨"rerun"⟩
  name := "Rerun"
  active := true
  layers := []
  segments := [
    ⟨⟨"news"⟩, "News", [⟨⟨"headlines"⟩, "Headlines", 30000, []⟩, ⟨⟨"report"⟩, "Report", 90000, []⟩]⟩,
    ⟨⟨"outlook"⟩, "Outlook", [⟨⟨"weather"⟩, "Weather", 60000, []⟩]⟩,
    ⟨⟨"news"⟩, "News again", [⟨⟨"headlines"⟩, "Headlines again", 15000, []⟩]⟩]

end Rundown

namespace Change

variable {rundown changed : Rundown}

section Insert

variable {segment : Id .segment} {index : Nat} {line : Line}

theorem insertLine_succeeds_iff :
    (∃ changed, (insertLine segment index line).apply rundown = (.ok (), changed)) ↔
      line.id ∉ rundown.lines.map (·.id) ∧ segment ∈ rundown.segments.map (·.id) := by
  constructor
  · rintro ⟨changed, h⟩
    obtain ⟨fresh, put⟩ := insertLine_put h
    exact ⟨fresh, put.mem_segments⟩
  · rintro ⟨fresh, found⟩
    have outcome := insertLine_outcome segment index line rundown
    generalize (insertLine segment index line).apply rundown = run at outcome ⊢
    cases outcome with
    | repeats again => exact absurd again fresh
    | nowhere _ gone => exact absurd found gone
    | put _ _ => exact ⟨_, rfl⟩

end Insert

theorem removeLine_succeeds_iff {id : Id .line} :
    (∃ line changed, (removeLine id).apply rundown = (.ok line, changed)) ↔
      id ∈ rundown.lines.map (·.id) := by
  constructor
  · rintro ⟨line, changed, h⟩
    obtain ⟨rfl, taken⟩ := removeLine_taken h
    exact List.count_pos_iff.mp (taken.extendedBy.count_line ▸ Nat.succ_pos _)
  · intro found
    have outcome := removeLine_outcome id rundown
    generalize (removeLine id).apply rundown = run at outcome ⊢
    cases outcome with
    | absent gone => exact absurd found gone
    | taken _ _ => exact ⟨_, _, rfl⟩

section Move

variable {id : Id .line} {segment : Id .segment} {index : Nat}

theorem moveLine_moved (h : (moveLine id segment index).apply rundown = (.ok (), changed)) :
    ∃ line, line.id = id ∧ rundown.LineMoved line segment index changed := by
  have outcome := moveLine_outcome id segment index rundown
  rw [h] at outcome
  cases outcome with
  | moved hid taken fresh put =>
    obtain rfl := hid
    exact ⟨_, rfl, taken.moved fresh put⟩

theorem moveLine_succeeds_iff :
    (∃ changed, (moveLine id segment index).apply rundown = (.ok (), changed)) ↔
      segment ∈ rundown.segments.map (·.id) ∧ (rundown.lines.map (·.id)).count id = 1 := by
  have outcome := moveLine_outcome id segment index rundown
  generalize (moveLine id segment index).apply rundown = run at outcome ⊢
  cases outcome with
  | nowhere gone => exact ⟨fun ⟨_, h⟩ => (nomatch h), fun ⟨found, _⟩ => absurd found gone⟩
  | absent _ gone =>
    rw [List.count_eq_zero.mpr gone]
    exact ⟨fun ⟨_, h⟩ => (nomatch h), fun ⟨_, h⟩ => (nomatch h)⟩
  | lost _ hid taken again =>
    obtain rfl := hid
    have twice := taken.again_iff.mp again
    exact ⟨fun ⟨_, h⟩ => (nomatch h), fun ⟨_, once⟩ => by omega⟩
  | moved hid taken fresh put =>
    obtain rfl := hid
    have found := taken.extendedBy.frame.segments ▸ put.mem_segments
    exact ⟨fun _ => ⟨found, taken.once_iff.mp fresh⟩, fun _ => ⟨_, rfl⟩⟩

end Move

/-- Of the lines nothing is lost, doubled or put in another order but what a change says, also where
identifiers repeat. -/
theorem lines_put_taken_moved (rundown : Rundown) :
    (∀ segment index line,
      ((∃ changed, (insertLine segment index line).apply rundown = (.ok (), changed)) ↔
        line.id ∉ rundown.lines.map (·.id) ∧ segment ∈ rundown.segments.map (·.id)) ∧
      ∀ changed, (insertLine segment index line).apply rundown = (.ok (), changed) →
        rundown.LinePut segment index line changed) ∧
    (∀ id,
      ((∃ line changed, (removeLine id).apply rundown = (.ok line, changed)) ↔
        id ∈ rundown.lines.map (·.id)) ∧
      ∀ line changed, (removeLine id).apply rundown = (.ok line, changed) →
        line.id = id ∧ rundown.LineTaken line changed) ∧
    ∀ id segment index,
      ((∃ changed, (moveLine id segment index).apply rundown = (.ok (), changed)) ↔
        segment ∈ rundown.segments.map (·.id) ∧ (rundown.lines.map (·.id)).count id = 1) ∧
      ∀ changed, (moveLine id segment index).apply rundown = (.ok (), changed) →
        ∃ line, line.id = id ∧ rundown.LineMoved line segment index changed :=
  ⟨fun _ _ _ => ⟨insertLine_succeeds_iff, fun _ h => (insertLine_put h).2⟩,
    fun _ => ⟨removeLine_succeeds_iff, fun _ _ h => removeLine_taken h⟩,
    fun _ _ _ => ⟨moveLine_succeeds_iff, fun _ h => moveLine_moved h⟩⟩

/-- Of the two segments and the two lines that share an identifier, the first ones count. The weather
moves behind the lines of the first news; the headlines do not move at all. -/
theorem lines_put_taken_moved_rerun :
    let sports : Line := ⟨⟨"sports"⟩, "Sports", 20000, []⟩
    let headlines : Line := ⟨⟨"headlines"⟩, "Headlines", 30000, []⟩
    let weather : Line := ⟨⟨"weather"⟩, "Weather", 60000, []⟩
    (∃ changed, (insertLine ⟨"news"⟩ 1 sports).apply .rerun = (.ok (), changed) ∧
      Rundown.rerun.LinePut ⟨"news"⟩ 1 sports changed) ∧
    (∃ changed, (removeLine ⟨"headlines"⟩).apply .rerun = (.ok headlines, changed) ∧
      Rundown.rerun.LineTaken headlines changed) ∧
    (∃ changed, (moveLine ⟨"weather"⟩ ⟨"news"⟩ 5).apply .rerun = (.ok (), changed) ∧
      Rundown.rerun.LineMoved weather ⟨"news"⟩ 5 changed) ∧
    ∀ segment index, ¬ ∃ changed,
      (moveLine ⟨"headlines"⟩ segment index).apply .rerun = (.ok (), changed) := by
  intro sports headlines weather
  obtain ⟨puts, takes, moves⟩ := lines_put_taken_moved .rerun
  refine ⟨⟨_, rfl, (puts _ _ _).2 _ rfl⟩, ⟨_, rfl, ((takes ⟨"headlines"⟩).2 _ _ rfl).2⟩, ?_, ?_⟩
  · obtain ⟨changed, hmove⟩ := (moves ⟨"weather"⟩ ⟨"news"⟩ 5).1.mpr ⟨by decide, by decide⟩
    obtain ⟨line, hid, moved⟩ := (moves _ _ _).2 changed hmove
    have hline : [weather] = [line] := by
      have honce := moved.once
      rw [hid] at honce
      exact honce
    obtain ⟨rfl, -⟩ := List.cons.inj hline
    exact ⟨changed, hmove, moved⟩
  · intro segment index h
    exact absurd ((moves ⟨"headlines"⟩ segment index).1.mp h).2 (by decide)

end Change

end OnAir
