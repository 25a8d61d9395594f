import OnAir.Proofs.Placement

set_option autoImplicit false

/-!
Changes that leave a rundown as it was when they fail (`Change.AllOrNothing`). To put a line in, to
take one out and to take an item out are such changes. To move a line is one only as long as no
second line has its identifier: otherwise the first of these lines is taken out, and then refused
where it should go in.
-/
namespace OnAir.Change

variable {rundown : Rundown} {α : Type}

def AllOrNothing (change : Change α) (rundown : Rundown) : Prop :=
  ∀ fault changed, change.apply rundown = (.error fault, changed) → changed = rundown

theorem update_allOrNothing (fault : Fault) (f : Rundown → Option (α × Rundown))
    (rundown : Rundown) : (update fault f).AllOrNothing rundown := by
  intro found changed h
  rw [apply_update] at h
  split at h
  · exact nomatch congrArg Prod.fst h
  · exact (congrArg Prod.snd h).symm

theorem insertLine_allOrNothing (segment : Id .segment) (index : Nat) (line : Line)
    (rundown : Rundown) : (insertLine segment index line).AllOrNothing rundown := by
  intro fault changed h
  have outcome := insertLine_outcome segment index line rundown
  rw [h] at outcome
  cases outcome with
  | repeats _ => rfl
  | nowhere _ _ => rfl

section Move

variable {id : Id .line} {segment : Id .segment} {index : Nat}

theorem moveLine_lost (found : segment ∈ rundown.segments.map (·.id))
    (twice : 1 < (rundown.lines.map (·.id)).count id) :
    ∃ line rest, line.id = id ∧ rundown.LineTaken line rest ∧
      (moveLine id segment index).apply rundown = (.error (.duplicate id.name), rest) := by
  have outcome := moveLine_outcome id segment index rundown
  generalize (moveLine id segment index).apply rundown = run at outcome ⊢
  cases outcome with
  | nowhere gone => exact absurd found gone
  | absent _ gone =>
    rw [List.count_eq_zero.mpr gone] at twice
    exact nomatch twice
  | lost _ hid taken _ => exact ⟨_, _, hid, taken, rfl⟩
  | moved hid taken fresh _ =>
    obtain rfl := hid
    exact absurd (taken.again_iff.mpr twice) fresh

theorem moveLine_allOrNothing_iff :
    (moveLine id segment index).AllOrNothing rundown ↔
      (segment ∈ rundown.segments.map (·.id) → (rundown.lines.map (·.id)).count id ≤ 1) := by
  constructor
  · intro kept found
    by_contra hcount
    obtain ⟨line, rest, -, taken, hlost⟩ := moveLine_lost found (Nat.lt_of_not_le hcount)
    have hlength := taken.extendedBy.length_lines
    rw [kept _ _ hlost] at hlength
    omega
  · intro once fault changed h
    have outcome := moveLine_outcome id segment index rundown
    rw [h] at outcome
    cases outcome with
    | nowhere _ => rfl
    | absent _ _ => rfl
    | lost found hid taken again =>
      obtain rfl := hid
      exact absurd (taken.again_iff.mp again) (Nat.not_lt.mpr (once found))

end Move

/-- A change to lines or items that fails has not changed anything, but for the move of a line whose
identifier repeats: it is refused for that, and by then the first such line is gone. -/
theorem allOrNothing_unless_moved_repeats (rundown : Rundown) :
    (∀ segment index line, (insertLine segment index line).AllOrNothing rundown) ∧
    (∀ id, (removeLine id).AllOrNothing rundown) ∧
    (∀ id, (removeItem id).AllOrNothing rundown) ∧
    ∀ id segment index,
      ((moveLine id segment index).AllOrNothing rundown ↔
        (segment ∈ rundown.segments.map (·.id) → (rundown.lines.map (·.id)).count id ≤ 1)) ∧
      (segment ∈ rundown.segments.map (·.id) → 1 < (rundown.lines.map (·.id)).count id →
        ∃ line rest, line.id = id ∧ rundown.LineTaken line rest ∧
          (moveLine id segment index).apply rundown = (.error (.duplicate id.name), rest)) :=
  ⟨fun segment index line => insertLine_allOrNothing segment index line rundown,
    fun id => update_allOrNothing (.notFound id.name) (·.takeLine? id) rundown,
    fun id => update_allOrNothing (.notFound id.name) (·.takeItem? id) rundown,
    fun _ _ _ => ⟨moveLine_allOrNothing_iff, moveLine_lost⟩⟩

/-- The weather moves or stays. The headlines, which stand in both of the news, are lost from the
first of them. -/
theorem allOrNothing_rerun_unless_headlines :
    (∀ segment index, (moveLine ⟨"weather"⟩ segment index).AllOrNothing .rerun) ∧
    ∃ line rest, line.id = ⟨"headlines"⟩ ∧ Rundown.rerun.LineTaken line rest ∧
      (moveLine ⟨"headlines"⟩ ⟨"outlook"⟩ 0).apply .rerun =
        (.error (.duplicate ⟨.line, "headlines"⟩), rest) := by
  obtain ⟨-, -, -, moves⟩ := allOrNothing_unless_moved_repeats .rerun
  constructor
  · exact fun segment index => (moves _ segment index).1.mpr fun _ => by decide
  · exact (moves ⟨"headlines"⟩ ⟨"outlook"⟩ 0).2 (by decide) (by decide)

theorem moveLine_headlines_not_allOrNothing :
    ¬ (moveLine ⟨"headlines"⟩ ⟨"outlook"⟩ 0).AllOrNothing .rerun := by
  intro kept
  have same := congrArg (·.lines.length) (kept _ _ rfl)
  exact absurd same (by decide)

end OnAir.Change
