import OnAir.Proofs.Counting
import OnAir.Proofs.Session

set_option autoImplicit false

namespace OnAir

/-- What may be asked of a session and of its publisher; the publisher takes any rundown. -/
inductive Call where
  | recompute (rundown : Rundown) (start : Option (Id .line)) (mode : Mode) (token : Token)
  | forget (ids : List (Id .line))
  | edit (edit : Edit) (token : Token)

structure Step where
  before : Session
  call : Call
  answer : Except Fault Report
  after : Session

namespace Step

/-- The lines over which a call counts changes: those of the rundown that it takes. -/
def lines (step : Step) : List Line :=
  match step.call with
  | .recompute rundown .. => rundown.lines
  | .forget _ => []
  | .edit .. => step.after.rundown.lines

def old (step : Step) : Board := step.before.publisher.board

def new (step : Step) : Board := step.after.publisher.board

def publishes (step : Step) : Bool := step.new ≠ step.old

/-- Nothing is published, or the next version with a change; and a report counts exactly what the
board shows otherwise, and what it has lost. -/
structure Accounted (step : Step) : Prop where
  published : step.new = step.old ∨
    (step.new.version.toNat = step.old.version.toNat + 1 ∧ step.new.sameLines step.old = false)
  reported : ∀ report, step.answer = .ok report →
    report.version = step.new.version ∧
    report.changed = step.lines.countP (fun line => step.new.line? line.id ≠ step.old.line? line.id) ∧
    report.pruned = step.old.lines.keys.countP fun id => (step.new.line? id).isNone

end Step

namespace Session

def call (session : Session) : Call → Step
  | .recompute rundown start mode token =>
    let (answer, publisher) := session.publisher.recompute rundown start mode token
    ⟨session, .recompute rundown start mode token, answer, { session with publisher }⟩
  | .forget ids =>
    let (report, publisher) := session.publisher.forget ids
    ⟨session, .forget ids, .ok report, { session with publisher }⟩
  | .edit edit token =>
    let (answer, after) := session.apply edit token
    ⟨session, .edit edit token, answer, after⟩

@[simp] theorem call_old (session : Session) (call : Call) :
    (session.call call).old = session.publisher.board := by cases call <;> rfl

def steps (session : Session) : List Call → List Step
  | [] => []
  | call :: rest => session.call call :: (session.call call).after.steps rest

/-- All boards that are ever seen: the first one, and what is published after each call. -/
def boards (session : Session) (calls : List Call) : List Board :=
  session.publisher.board :: (session.steps calls).map Step.new

variable {session : Session}

theorem keepUp_counts {publisher result : Publisher} {rundown changed : Rundown} {upkeep : Upkeep}
    {token : Token} {report : Report} (effect : Edit.Effect rundown changed upkeep)
    (h : keepUp publisher changed token upkeep = (.ok report, result)) :
    publisher.board.Becomes result.board ∧
      report.Counts changed.lines publisher.board result.board := by
  cases upkeep with
  | recompute start mode removed => exact Publisher.update_counts h
  | forget line =>
    cases effect with
    | lastRemoved distinct frame hold hnew =>
      obtain ⟨hreport, rfl⟩ := Prod.mk.inj h
      obtain rfl := Except.ok.inj hreport
      refine publisher.forget_counts [_] fun line hl hm => ?_
      have hlines := distinct.lineIds_nodup hold
      have hid : line.id ∈ changed.lines.map (·.id) := List.mem_map_of_mem hl
      rw [← Rundown.map_lineId_spots, hnew] at hid
      rw [List.map_append] at hlines
      exact (List.nodup_append.mp hlines).2.2 _ hid _ List.mem_cons_self (List.mem_singleton.mp hm)

theorem call_counts (session : Session) (call : Call) :
    (session.call call).old.Becomes (session.call call).new ∧
      ∀ report, (session.call call).answer = .ok report →
        report.Counts (session.call call).lines (session.call call).old (session.call call).new := by
  cases call with
  | recompute rundown start mode token =>
    change session.publisher.board.Becomes
      (session.publisher.recompute rundown start mode token).2.board ∧ ∀ report,
        (session.publisher.recompute rundown start mode token).1 = .ok report →
          report.Counts rundown.lines session.publisher.board
            (session.publisher.recompute rundown start mode token).2.board
    cases hanswer : (session.publisher.recompute rundown start mode token).1 with
    | error fault =>
      rw [Publisher.recompute, Publisher.update_error hanswer]
      exact ⟨.inl rfl, nofun⟩
    | ok report =>
      obtain ⟨becomes, counts⟩ := Publisher.update_counts (Prod.ext hanswer rfl)
      exact ⟨becomes, fun _ h => Except.ok.inj h ▸ counts⟩
  | forget ids =>
    have hkept : ∀ line ∈ ([] : List Line), line.id ∉ ids := nofun
    obtain ⟨becomes, counts⟩ := session.publisher.forget_counts ids hkept
    exact ⟨becomes, fun _ h => Except.ok.inj h ▸ counts⟩
  | edit edit token =>
    change session.publisher.board.Becomes (session.apply edit token).2.publisher.board ∧
      ∀ report, (session.apply edit token).1 = .ok report →
        report.Counts (session.apply edit token).2.rundown.lines session.publisher.board
          (session.apply edit token).2.publisher.board
    cases hanswer : (session.apply edit token).1 with
    | error fault =>
      rw [apply_of_error hanswer]
      exact ⟨.inl rfl, nofun⟩
    | ok report =>
      obtain ⟨upkeep, hchange, hkeep⟩ := apply_of_ok hanswer
      obtain ⟨becomes, counts⟩ := keepUp_counts (Edit.effect_of_change hchange) hkeep
      exact ⟨becomes, fun _ h => Except.ok.inj h ▸ counts⟩

/-- Versions do not run out: past the first one there is one for each board that is published. -/
def Lasts (session : Session) (calls : List Call) : Prop :=
  session.publisher.board.version.toNat + (session.steps calls).countP Step.publishes < UInt64.size

theorem call_of_lasts {call : Call} {rest : List Call} (h : session.Lasts (call :: rest)) :
    (session.call call).Accounted ∧ (session.call call).after.Lasts rest := by
  obtain ⟨becomes, counts⟩ := session.call_counts call
  have reported := fun report hr =>
    (⟨(counts report hr).version, (counts report hr).changed, (counts report hr).pruned⟩ : _ ∧ _ ∧ _)
  have hlasts : (session.call call).old.version.toNat +
      (((session.call call).after.steps rest).countP Step.publishes +
        if (session.call call).publishes = true then 1 else 0) < UInt64.size := by
    rw [call_old]
    rwa [Lasts, steps, List.countP_cons] at h
  change _ ∧ (session.call call).new.version.toNat + _ < UInt64.size
  rcases becomes with hsame | ⟨hversion, hdiffer⟩
  · refine ⟨⟨.inl hsame, reported⟩, ?_⟩
    rw [hsame]
    omega
  · have hpublishes : (session.call call).publishes = true := by
      refine decide_eq_true fun heq => ?_
      rw [heq, Board.sameLines_iff.mpr fun _ => rfl] at hdiffer
      exact nomatch hdiffer
    rw [if_pos hpublishes] at hlasts
    have hnext : (session.call call).new.version.toNat = (session.call call).old.version.toNat + 1 := by
      rw [hversion, UInt64.toNat_add, Nat.mod_eq_of_lt]
      · rfl
      · change (session.call call).old.version.toNat + 1 < UInt64.size
        omega
    refine ⟨⟨.inr ⟨hnext, hdiffer⟩, reported⟩, ?_⟩
    rw [hnext]
    omega

theorem accounted_of_lasts {calls : List Call} (h : session.Lasts calls) :
    ∀ step ∈ session.steps calls, step.Accounted := by
  induction calls generalizing session with
  | nil => exact fun _ hm => absurd hm List.not_mem_nil
  | cons call rest ih =>
    obtain ⟨accounted, hrest⟩ := call_of_lasts h
    exact List.forall_mem_cons.mpr ⟨accounted, ih hrest⟩

theorem eq_or_lt_of_lasts {calls : List Call} (h : session.Lasts calls) :
    ∀ board ∈ session.boards calls, board = session.publisher.board ∨
      session.publisher.board.version.toNat < board.version.toNat := by
  induction calls generalizing session with
  | nil => exact List.forall_mem_singleton.mpr (.inl rfl)
  | cons call rest ih =>
    obtain ⟨accounted, hrest⟩ := call_of_lasts h
    refine List.forall_mem_cons.mpr ⟨.inl rfl, fun board hm => ?_⟩
    have hlater : board = (session.call call).new ∨
        (session.call call).new.version.toNat < board.version.toNat := ih hrest board hm
    rcases accounted.published with hsame | ⟨hnext, -⟩
    · rwa [hsame, call_old] at hlater
    · rw [call_old] at hnext
      right
      rcases hlater with rfl | hlt
      · omega
      · omega

theorem eq_of_version_eq {calls : List Call} (h : session.Lasts calls) :
    ∀ a ∈ session.boards calls, ∀ b ∈ session.boards calls, a.version = b.version → a = b := by
  have first {session : Session} {calls : List Call} (h : session.Lasts calls) {board : Board}
      (hm : board ∈ session.boards calls) (heq : board.version = session.publisher.board.version) :
      board = session.publisher.board := by
    refine (eq_or_lt_of_lasts h board hm).resolve_right fun hlt => ?_
    rw [heq] at hlt
    exact Nat.lt_irrefl _ hlt
  induction calls generalizing session with
  | nil =>
    intro a ha b hb _
    rw [List.mem_singleton.mp ha, List.mem_singleton.mp hb]
  | cons call rest ih =>
    intro a ha b hb heq
    rcases List.mem_cons.mp ha with rfl | ha'
    · exact (first h hb heq.symm).symm
    · rcases List.mem_cons.mp hb with rfl | hb'
      · exact first h ha heq
      · exact ih (call_of_lasts h).2 a ha' b hb' heq

/-- As long as versions do not run out, each call on a publisher or on its session leaves the board
alone or publishes the next version with a change, its report counts exactly what has changed and
what is gone, and all boards of one version show the same. -/
theorem steps_accounted (session : Session) (calls : List Call) (lasts : session.Lasts calls) :
    (∀ step ∈ session.steps calls, step.Accounted) ∧
      ∀ a ∈ session.boards calls, ∀ b ∈ session.boards calls, a.version = b.version →
        a.sameLines b = true := by
  refine ⟨accounted_of_lasts lasts, fun a ha b hb heq => ?_⟩
  rw [eq_of_version_eq lasts a ha b hb heq]
  exact Board.sameLines_iff.mpr fun _ => rfl

/-- The weather is forgotten twice in one call. Then a recompute and a longer headline are cancelled as
they come to the weather, the longer headline with a note of the report already taken. An item goes
while its token is never found set. -/
theorem steps_bulletin_accounted :
    let session : Session := ⟨Rundown.bulletin, (Rundown.bulletin.fullRun ⟨1, true⟩).2⟩
    let calls : List Call := [.forget [⟨"weather"⟩, ⟨"weather"⟩],
      .recompute Rundown.bulletin none .runToEnd (.setAfter 2),
      .edit (.setLineDuration ⟨"headlines"⟩ 45000) (.setAfter 2),
      .edit (.removeItem ⟨"logo"⟩) (.setAfter 3)]
    session.Lasts calls ∧ (session.boards calls).map (·.version) = [1, 2, 2, 2, 3] ∧
      (session.steps calls).map (·.answer.toBool) = [true, false, false, true] ∧
      (∀ step ∈ session.steps calls, step.Accounted) ∧
      ∀ a ∈ session.boards calls, ∀ b ∈ session.boards calls, a.version = b.version →
        a.sameLines b = true := by
  intro session calls
  have lasts : session.Lasts calls := by
    unfold Lasts
    decide +kernel
  exact ⟨lasts, by decide +kernel, by decide +kernel, steps_accounted session calls lasts⟩

end Session

end OnAir
