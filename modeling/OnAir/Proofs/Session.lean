import OnAir.Proofs.Rework
import OnAir.Session

set_option autoImplicit false

namespace OnAir.Session

def run (session : Session) : List (Edit × Token) → List (Except Fault Report) × Session
  | [] => ([], session)
  | (edit, token) :: rest =>
    let (answer, next) := session.apply edit token
    let (answers, last) := next.run rest
    (answer :: answers, last)

/-- The rundown is sound, and the board shows what a full run shows. -/
structure Coherent (session : Session) : Prop where
  sound : session.rundown.Sound
  current : session.publisher.board.Current session.rundown

theorem start_ok {rundown : Rundown} {settings : Settings} {session : Session}
    (h : start rundown settings = .ok session) :
    session.rundown = rundown ∧ ∃ report, rundown.fullRun settings = (.ok report, session.publisher) := by
  rw [start] at h
  rw [Rundown.fullRun]
  cases hrun : (Publisher.fresh settings).recompute rundown none .runToEnd .unset with
  | mk answer publisher =>
    rw [hrun] at h
    cases answer with
    | error fault => exact nomatch h
    | ok report =>
      obtain rfl := Except.ok.inj h
      exact ⟨rfl, report, rfl⟩

theorem start_coherent {rundown : Rundown} {settings : Settings} {session : Session}
    (h : start rundown settings = .ok session) : session.Coherent := by
  obtain ⟨rfl, report, hrun⟩ := start_ok h
  obtain ⟨sound, current⟩ := Rundown.fullRun_ok hrun
  exact ⟨sound, current⟩

variable {session : Session} {publisher result : Publisher} {rundown changed : Rundown}
  {upkeep : Upkeep} {token : Token} {fault : Fault} {report : Report}

theorem keepUp_error (h : (keepUp publisher rundown token upkeep).1 = .error fault) :
    (keepUp publisher rundown token upkeep).2 = publisher := by
  cases upkeep with
  | recompute start mode removed => exact Publisher.update_error h
  | forget line => exact nomatch h

theorem keepUp_current (sound : rundown.Sound) (current : publisher.board.Current rundown)
    (effect : Edit.Effect rundown changed upkeep)
    (h : keepUp publisher changed token upkeep = (.ok report, result)) :
    changed.Sound ∧ result.board.Current changed := by
  cases upkeep with
  | recompute start mode removed =>
    have distinct := (Publisher.update_ok (Publisher.update_of_token h)).1
    exact Publisher.update_current sound current h fun _ hi => effect.reworked distinct hi
  | forget line =>
    cases effect with
    | lastRemoved _ frame hold hnew =>
      obtain ⟨-, rfl⟩ := Prod.mk.inj h
      exact ⟨sound.of_lastRemoved frame hold hnew,
        Publisher.forget_current sound current frame hold hnew⟩

theorem apply_of_error {edit : Edit} (h : (session.apply edit token).1 = .error fault) :
    (session.apply edit token).2 = session := by
  rw [apply] at h ⊢
  cases hchange : edit.change.apply session.rundown with
  | mk answer changed =>
    rw [hchange] at h
    cases answer with
    | error fault' => rfl
    | ok upkeep =>
      dsimp only at h ⊢
      have hkept := @keepUp_error session.publisher changed upkeep token
      cases hkeep : keepUp session.publisher changed token upkeep with
      | mk answer publisher =>
        rw [hkeep] at h hkept
        cases answer with
        | error fault' =>
          obtain rfl := hkept rfl
          rfl
        | ok report => exact nomatch h

theorem apply_of_ok {edit : Edit} (h : (session.apply edit token).1 = .ok report) :
    ∃ upkeep, edit.change.apply session.rundown =
        (.ok upkeep, (session.apply edit token).2.rundown) ∧
      keepUp session.publisher (session.apply edit token).2.rundown token upkeep =
        (.ok report, (session.apply edit token).2.publisher) := by
  rw [apply] at h ⊢
  cases hchange : edit.change.apply session.rundown with
  | mk answer changed =>
    rw [hchange] at h
    cases answer with
    | error fault => exact nomatch h
    | ok upkeep =>
      dsimp only at h ⊢
      cases hkeep : keepUp session.publisher changed token upkeep with
      | mk answer publisher =>
        rw [hkeep] at h
        cases answer with
        | error fault => exact nomatch h
        | ok report' =>
          obtain rfl := Except.ok.inj h
          exact ⟨upkeep, rfl, hkeep⟩

theorem apply_coherent (h : session.Coherent) (edit : Edit) (token : Token) :
    (session.apply edit token).2.Coherent := by
  cases hanswer : (session.apply edit token).1 with
  | error fault =>
    rw [apply_of_error hanswer]
    exact h
  | ok report =>
    obtain ⟨upkeep, hchange, hkeep⟩ := apply_of_ok hanswer
    obtain ⟨sound, current⟩ :=
      keepUp_current h.sound h.current (Edit.effect_of_change hchange) hkeep
    exact ⟨sound, current⟩

theorem run_coherent (h : session.Coherent) (edits : List (Edit × Token)) :
    (session.run edits).2.Coherent := by
  induction edits generalizing session with
  | nil => exact h
  | cons first rest ih => exact ih (apply_coherent h first.1 first.2)

/-- After any edits of a session, each made or refused, a full run over its rundown succeeds and
shows what the session's board shows. -/
theorem run_sameLines_fullRun {rundown : Rundown} {settings : Settings} {session : Session}
    (h : start rundown settings = .ok session) (edits : List (Edit × Token)) (settings' : Settings) :
    ∃ report full, (session.run edits).2.rundown.fullRun settings' = (.ok report, full) ∧
      (session.run edits).2.publisher.board.sameLines full.board = true := by
  have coherent := run_coherent (start_coherent h) edits
  obtain ⟨report, full, hrun, current⟩ := Rundown.fullRun_of_sound coherent.sound settings'
  exact ⟨report, full, hrun, coherent.current.sameLines current⟩

theorem start_bulletin :
    start Rundown.bulletin .standard =
      .ok ⟨Rundown.bulletin, (Rundown.bulletin.fullRun .standard).2⟩ := by
  obtain ⟨report, full, hrun, -⟩ := Rundown.fullRun_of_sound Rundown.bulletin_sound .standard
  rw [hrun]
  rw [Rundown.fullRun] at hrun
  rw [start, hrun]

/-- A last line goes, a cancelled edit is refused, and a line moves across segments. -/
theorem run_bulletin_sameLines_fullRun :
    let session : Session := ⟨Rundown.bulletin, (Rundown.bulletin.fullRun .standard).2⟩
    let last := (session.run [(.removeLine ⟨"weather"⟩, .unset), (.removeItem ⟨"logo"⟩, .setAfter 0),
      (.moveLine ⟨"headlines"⟩ ⟨"outlook"⟩ 0, .unset)]).2
    ∃ report full, last.rundown.fullRun ⟨0, false⟩ = (.ok report, full) ∧
      last.publisher.board.sameLines full.board = true :=
  run_sameLines_fullRun start_bulletin _ ⟨0, false⟩

end OnAir.Session
