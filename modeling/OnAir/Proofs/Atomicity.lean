import OnAir.Command.Run
import OnAir.Proofs.Session

set_option autoImplicit false

namespace OnAir

namespace Session

def accepted (session : Session) : List (Edit × Token) → List (Edit × Token)
  | [] => []
  | (edit, token) :: rest =>
    let (answer, next) := session.apply edit token
    if answer.isOk then (edit, token) :: next.accepted rest else next.accepted rest

theorem run_cons (session : Session) (edit : Edit) (token : Token) (rest : List (Edit × Token)) :
    session.run ((edit, token) :: rest) =
      ((session.apply edit token).1 :: ((session.apply edit token).2.run rest).1,
        ((session.apply edit token).2.run rest).2) := rfl

theorem accepted_cons (session : Session) (edit : Edit) (token : Token)
    (rest : List (Edit × Token)) :
    session.accepted ((edit, token) :: rest) =
      if (session.apply edit token).1.isOk then
        (edit, token) :: (session.apply edit token).2.accepted rest
      else (session.apply edit token).2.accepted rest := rfl

theorem accepted_sublist (session : Session) (edits : List (Edit × Token)) :
    (session.accepted edits).Sublist edits := by
  induction edits generalizing session with
  | nil => exact .slnil
  | cons first rest ih =>
    rw [accepted_cons]
    split
    · exact (ih _).cons_cons first
    · exact (ih _).cons first

/-- Without the edits that it refuses, a run gives the same reports and ends in the same session. -/
theorem run_accepted (session : Session) (edits : List (Edit × Token)) :
    session.run (session.accepted edits) =
      ((session.run edits).1.filter Except.isOk, (session.run edits).2) := by
  induction edits generalizing session with
  | nil => rfl
  | cons first rest ih =>
    obtain ⟨edit, token⟩ := first
    have hrest := ih (session.apply edit token).2
    rw [accepted_cons, run_cons]
    cases hanswer : (session.apply edit token).1 with
    | error fault =>
      rw [apply_of_error hanswer] at hrest ⊢
      exact hrest
    | ok report =>
      rw [if_pos (show (Except.ok report : Except Fault Report).isOk = true from rfl), run_cons, hrest,
        hanswer]
      rfl

def snapshotBytes (session : Session) : Except Snapshot.Fault (List UInt8) :=
  (Snapshot.ofBoard session.publisher.board).bind Snapshot.write

/-- A failed edit leaves rundown and board as they were, and leaving such edits out of a run changes
nothing of what the others report and of where the run ends. -/
theorem failed_edits_change_nothing (session : Session) :
    (∀ edit token fault, (session.apply edit token).1 = .error fault →
      (session.apply edit token).2 = session) ∧
    ∀ edits,
      (session.run (session.accepted edits)).1 = (session.run edits).1.filter Except.isOk ∧
      (session.run (session.accepted edits)).2 = (session.run edits).2 ∧
      (session.run (session.accepted edits)).2.snapshotBytes =
        (session.run edits).2.snapshotBytes := by
  refine ⟨fun edit token fault h => apply_of_error h, fun edits => ?_⟩
  rw [run_accepted]
  exact ⟨rfl, rfl, rfl⟩

/-- A jingle is refused on the walk, as the bulletin has no audio layer. Longer headlines shift the logo
on the report, and that is noted already when the token is found set on the weather. -/
theorem failed_bulletin_edits_change_nothing :
    let session : Session := ⟨Rundown.bulletin, (Rundown.bulletin.fullRun ⟨1, true⟩).2⟩
    let jingle : Edit := .insertItem ⟨"report"⟩ ⟨⟨"jingle"⟩, ⟨"audio"⟩, 1000, .ownLine, .empty⟩
    let longer : Edit := .setLineDuration ⟨"headlines"⟩ 45000
    (session.apply jingle .unset).1 = .error (.notFound ⟨.layer, "audio"⟩) ∧
      (session.apply jingle .unset).2 = session ∧
      (session.apply longer (.setAfter 2)).1 = .error .cancelled ∧
      (session.apply longer (.setAfter 2)).2 = session ∧
      (session.apply longer (.setAfter 3)).1 = .ok ⟨some ⟨"headlines"⟩, .suffix, 3, 2, false, 0, 2⟩ := by
  intro session jingle longer
  have hjingle : (session.apply jingle .unset).1 = .error (.notFound ⟨.layer, "audio"⟩) := by rfl
  have hlonger : (session.apply longer (.setAfter 2)).1 = .error .cancelled := by decide +kernel
  have unchanged := (failed_edits_change_nothing session).1
  exact ⟨hjingle, unchanged jingle .unset _ hjingle, hlonger, unchanged longer (.setAfter 2) _ hlonger,
    by decide +kernel⟩

end Session

namespace Command

variable {m : Type → Type} [Monad m] [LawfulMonad m] [Host m]

def editLines (index : Nat) : List (Except Fault Report) → List String
  | [] => []
  | answer :: rest => editLine index answer :: editLines (index + 1) rest

theorem replayEdits_eq (session : Session) (index : Nat) (edits : List Edit) :
    (replayEdits session index edits : Step m Session) = (do
      printAll (editLines index (session.run (edits.map (·, .unset))).1)
      return (session.run (edits.map (·, .unset))).2) := by
  induction edits generalizing session index with
  | nil =>
    change (pure session : Step m Session) = (pure PUnit.unit >>= fun _ => pure session)
    rw [pure_bind]
  | cons edit rest ih =>
    have hlines (answer : Except Fault Report) (answers : List (Except Fault Report)) :
        (printAll (editLines index (answer :: answers)) : Step m Unit) =
          (do print (editLine index answer); printAll (editLines (index + 1) answers)) := rfl
    rw [replayEdits, List.map_cons, Session.run_cons]
    dsimp only
    rw [ih, hlines, bind_assoc]

theorem replayEdits_accepted (session : Session) (index : Nat) (edits : List Edit) :
    ∃ kept, kept.Sublist edits ∧
      kept.map (·, .unset) = session.accepted (edits.map (·, .unset)) ∧
      ∃ last lines lines',
        (replayEdits session index edits : Step m Session) = (do printAll lines; return last) ∧
        (replayEdits session index kept : Step m Session) = (do printAll lines'; return last) := by
  obtain ⟨kept, hkept, heq⟩ :=
    List.sublist_map_iff.mp (session.accepted_sublist (edits.map (·, .unset)))
  have hreplay : (replayEdits session index kept : Step m Session) = _ :=
    replayEdits_eq session index kept
  rw [← heq, Session.run_accepted] at hreplay
  exact ⟨kept, hkept, heq.symm, _, _, _, replayEdits_eq session index edits, hreplay⟩

end Command

end OnAir
