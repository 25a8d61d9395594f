import OnAir.Board

set_option autoImplicit false

namespace OnAir.Board

/-- What is done to a board, one thing at a time. -/
inductive Operation where
  | put (id : Id .line) (lineup : Lineup)
  | drop (id : Id .line)
  | keep (pass : Id .line → Bool)
  | advance

def after (board : Board) : Operation → Board
  | .put id lineup => board.put id lineup
  | .drop id => board.drop id
  | .keep pass => board.keep pass
  | .advance => board.advance

def built (history : List Operation) : Board := history.foldl after empty

/-- What an operation says of a line: the entries that it has from now on, or that it has none. Of
other lines it says nothing. -/
def Operation.says? (id : Id .line) : Operation → Option (Option Lineup)
  | .put line lineup => if line = id then some (some lineup) else none
  | .drop line => if id = line then some none else none
  | .keep pass => if pass id then none else some none
  | .advance => none

def lastWord (history : List Operation) (id : Id .line) : Option Lineup :=
  (history.filterMap (·.says? id)).getLast?.join

/-- A line is on neither of two boards, or on both with the same entry for each layer. That nothing
is on air on a layer is an entry, too. -/
def AlikeOn (a b : Board) (id : Id .line) : Prop :=
  (a.line? id = none ∧ b.line? id = none) ∨
    ∃ lineup lineup', a.line? id = some lineup ∧ b.line? id = some lineup' ∧
      ∀ layer, lineup.get? layer = lineup'.get? layer

variable {a b : Board} {history other : List Operation} {id : Id .line}

theorem line?_after (board : Board) (operation : Operation) (id : Id .line) :
    (board.after operation).line? id = (operation.says? id).getD (board.line? id) := by
  cases operation with
  | put line lineup =>
    rw [after, line?_put, Operation.says?]
    split <;> rfl
  | drop line =>
    rw [after, line?_drop, Operation.says?]
    split <;> rfl
  | keep pass =>
    rw [after, line?_keep, Operation.says?]
    split <;> rfl
  | advance => rfl

theorem line?_foldl_after (history : List Operation) (board : Board) (id : Id .line) :
    (history.foldl after board).line? id =
      (history.filterMap (·.says? id)).getLast?.getD (board.line? id) := by
  induction history generalizing board with
  | nil => rfl
  | cons operation rest ih =>
    rw [List.foldl_cons, ih, line?_after, List.filterMap_cons]
    cases operation.says? id with
    | none => rfl
    | some word =>
      dsimp only
      rw [List.getLast?_cons]
      cases (rest.filterMap (·.says? id)).getLast? <;> rfl

theorem line?_built (history : List Operation) (id : Id .line) :
    (built history).line? id = lastWord history id := by
  rw [built, line?_foldl_after, lastWord]
  cases (history.filterMap (·.says? id)).getLast? <;> rfl

theorem lastWord_perm (h : other.Perm history)
    (once : (history.filterMap (·.says? id)).length ≤ 1) :
    lastWord other id = lastWord history id := by
  have hwords := h.filterMap (·.says? id)
  rw [lastWord, lastWord]
  generalize history.filterMap (·.says? id) = words at once hwords
  cases words with
  | nil => rw [hwords.eq_nil]
  | cons word rest =>
    obtain rfl := List.length_eq_zero_iff.mp (Nat.le_zero.mp (Nat.le_of_succ_le_succ once))
    rw [List.perm_singleton.mp hwords]

theorem alikeOn_iff : AlikeOn a b id ↔ a.line? id = b.line? id := by
  constructor
  · rintro (⟨ha, hb⟩ | ⟨lineup, lineup', ha, hb, hentries⟩)
    · rw [ha, hb]
    · rw [ha, hb, IdMap.ext hentries]
  · intro h
    cases hline : b.line? id with
    | none => exact .inl ⟨h.trans hline, hline⟩
    | some lineup => exact .inr ⟨lineup, lineup, h.trans hline, hline, fun _ => rfl⟩

theorem sameLines_equivalence : Equivalence fun a b : Board => a.sameLines b = true where
  refl _ := sameLines_iff.mpr fun _ => rfl
  symm h := sameLines_iff.mpr fun id => (sameLines_iff.mp h id).symm
  trans h h' := sameLines_iff.mpr fun id => (sameLines_iff.mp h id).trans (sameLines_iff.mp h' id)

theorem sameLines_congr {a' b' : Board} (ha : ∀ id, a.line? id = a'.line? id)
    (hb : ∀ id, b.line? id = b'.line? id) : a.sameLines b = a'.sameLines b' := by
  rw [Bool.eq_iff_iff, sameLines_iff, sameLines_iff]
  simp only [ha, hb]

/-- Two boards, however they were built, have the same lines by the test exactly if each line is on
neither of them, or on both with the same entries. A line has what the history says last of it. So
the test is an equivalence, for which neither versions matter nor the order in which different lines
are put. -/
theorem sameLines_exact (first second : List Operation) :
    ((built first).sameLines (built second) = true ↔
      ∀ id, AlikeOn (built first) (built second) id) ∧
    (∀ id, (built first).line? id = lastWord first id) ∧
    Equivalence (fun a b : Board => a.sameLines b = true) ∧
    (∀ version version', sameLines { built first with version }
      { built second with version := version' } = (built first).sameLines (built second)) ∧
    ∀ other, other.Perm first → (∀ id, (first.filterMap (·.says? id)).length ≤ 1) →
      (built other).sameLines (built second) = (built first).sameLines (built second) := by
  refine ⟨?_, line?_built first, sameLines_equivalence, fun _ _ => rfl, fun other h once => ?_⟩
  · simp only [sameLines_iff, alikeOn_iff]
  · refine sameLines_congr (fun id => ?_) fun _ => rfl
    rw [line?_built, line?_built, lastWord_perm h (once id)]

/-- Told backwards, a history that speaks of each line once leaves the same. Without the entry that
nothing is on air during the report, the board is another. -/
theorem sameLines_report_exact :
    let silent : Lineup := .ofList [(⟨"graphics"⟩, none)]
    let history : List Operation := [.put ⟨"headlines"⟩ silent, .advance, .put ⟨"report"⟩ silent,
      .keep fun id => id ≠ ⟨"weather"⟩]
    (built history.reverse).sameLines (built history) = true ∧
      (built (history ++ [.put ⟨"report"⟩ .empty])).sameLines (built history) = false := by
  intro silent history
  have named : ∀ id ∈ ([⟨"headlines"⟩, ⟨"report"⟩, ⟨"weather"⟩] : List (Id .line)),
      (history.filterMap (·.says? id)).length ≤ 1 := by decide
  have once (id : Id .line) : (history.filterMap (·.says? id)).length ≤ 1 := by
    refine Classical.byCases (named id) fun hother => ?_
    simp only [List.mem_cons, List.not_mem_nil, or_false, not_or] at hother
    obtain ⟨hheadlines, hreport, hweather⟩ := hother
    simp [history, Operation.says?, Ne.symm hheadlines, Ne.symm hreport, hweather]
  obtain ⟨-, -, equivalence, -, order⟩ := sameLines_exact history history
  refine ⟨(order _ history.reverse_perm once).trans (equivalence.refl _), ?_⟩
  obtain ⟨alike, -⟩ := sameLines_exact (history ++ [.put ⟨"report"⟩ .empty]) history
  refine Bool.eq_false_iff.mpr fun h => ?_
  have hreport := alikeOn_iff.mp (alike.mp h ⟨"report"⟩)
  revert hreport
  decide

end OnAir.Board
