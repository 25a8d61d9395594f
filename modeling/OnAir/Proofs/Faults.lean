import OnAir.Proofs.Acceptance
import OnAir.Proofs.Cancellation
import OnAir.Proofs.Refusal

set_option autoImplicit false

namespace OnAir

theorem Line.offends_of_check {layers : List (Id .layer)} {line : Line} {fault : Fault}
    (h : line.check layers = .error fault) : ∃ item ∈ line.items, item.Offends layers fault := by
  obtain ⟨before, item, after, hsplit, -, hcheck⟩ := forM_eq_error_iff.mp h
  refine ⟨item, ?_, Item.check_eq_error_iff.mp hcheck⟩
  rw [hsplit]
  exact List.mem_append_right before List.mem_cons_self

namespace Walk

variable {walk : Walk} {last : Option (Id .segment)} {spots : List Spot} {fault : Fault}

theorem run_fails {mode : Mode} {lanes : List Lane} {visited : Nat}
    (h : walk.run mode .unset last lanes visited spots = .error fault) :
    ∃ spot ∈ spots, ∃ item ∈ spot.line.items, item.Offends walk.layers fault := by
  induction spots generalizing last lanes visited with
  | nil => simp [run] at h
  | cons spot rest ih =>
    rw [run, poll?_unset] at h
    dsimp only at h
    cases hcheck : spot.line.check walk.layers with
    | error found =>
      simp only [hcheck, Except.error.injEq] at h
      obtain ⟨item, hi, offends⟩ := Line.offends_of_check hcheck
      exact ⟨spot, List.mem_cons_self, item, hi, h ▸ offends⟩
    | ok =>
      simp only [hcheck] at h
      split at h
      · cases h
      · split at h
        · cases h
        · -- The fault is that of the walk over the other lines.
          obtain ⟨spot', hs, found⟩ := ih (Outcome.map_eq_error.mp h)
          exact ⟨spot', List.mem_cons_of_mem spot hs, found⟩

end Walk

namespace Publisher

variable {publisher : Publisher} {rundown : Rundown} {order : RunningOrder}
  {start : Option (Id .line)} {mode : Mode} {token : Token} {fault : Fault}

/-- A walk that has met a settled lane is walked again, and then fails as any walk does. -/
theorem walkFrom_fails {walk : Walk} {first : Nat} (carry : Id .layer → Option Carry)
    (h : walkFrom walk order first (walk.lanes fun y => .live (carry y)) mode .unset = .error fault) :
    ∃ spot ∈ order.spots, ∃ item ∈ spot.line.items, item.Offends walk.layers fault := by
  have hnever := walk.run_runToEnd_ne_stuck
    (fun _ => rfl : ∀ y, (Feed.last ⟨order.segmentBefore? first, carry y⟩) = _) 0 (order.since first)
  have outcome := walkFrom_outcome walk order first (walk.lanes fun y => .live (carry y)) mode
  rw [h] at outcome
  cases outcome with
  | failed hrun =>
    obtain ⟨spot, hs, offends⟩ := Walk.run_fails hrun
    exact ⟨spot, List.mem_of_mem_drop hs, offends⟩
  | diverged hstuck => exact absurd hstuck (hnever _)

theorem pass_fails_of_unset {layers : List (Id .layer)} {index : Nat}
    (h : publisher.pass layers order index mode .unset = .error fault) :
    ∃ spot ∈ order.spots, ∃ item ∈ spot.line.items, item.Offends layers fault := by
  have failed {found : Except Fault Pass} {first : Nat} (h : found.map (first, ·) = .error fault) :
      found = .error fault := by
    cases found with
    | error other => exact congrArg _ (Except.error.inj h)
    | ok pass => cases h
  rw [pass] at h
  cases hlanes : order.lanesInto? layers publisher.board index with
  | some lanes =>
    rw [hlanes] at h
    obtain ⟨carry, rfl⟩ := RunningOrder.lanesInto?_live hlanes
    exact walkFrom_fails carry (failed h)
  | none =>
    rw [hlanes] at h
    exact walkFrom_fails (fun _ => none) (failed h)

theorem pass_fails {layers : List (Id .layer)} {index : Nat}
    (h : publisher.pass layers order index mode token = .error fault) :
    (token ≠ .unset ∧ fault = .cancelled) ∨
      ∃ spot ∈ order.spots, ∃ item ∈ spot.line.items, item.Offends layers fault := by
  by_cases htoken : token = .unset
  · exact .inr (pass_fails_of_unset (htoken ▸ h))
  · rcases publisher.pass_token layers order index mode token with hcancelled | hsame
    · exact .inl ⟨htoken, Except.error.inj (h.symm.trans hcancelled)⟩
    · exact .inr (pass_fails_of_unset (hsame ▸ h))

/-- All that an update of a rundown can fail with. -/
inductive Fails (rundown : Rundown) (start : Option (Id .line)) (token : Token) : Fault → Prop where
  | repeats {name : Name} : FirstRepeat rundown.names name →
    Fails rundown start token (.duplicate name)
  | start {id : Id .line} : start = some id → id ∉ rundown.lines.map (·.id) →
    Fails rundown start token (.notFound id.name)
  | cancelled : token ≠ .unset → Fails rundown start token .cancelled
  | item {line : Line} {item : Item} {fault : Fault} : line ∈ rundown.lines → item ∈ line.items →
    item.Offends rundown.layerIds fault → Fails rundown start token fault

theorem startIndex_error (h : startIndex ⟨rundown.spots⟩ start = .error fault) :
    ∃ id, start = some id ∧ id ∉ rundown.lines.map (·.id) ∧ fault = .notFound id.name := by
  cases start with
  | none => cases h
  | some id =>
    have hfound := RunningOrder.isSome_index? rundown id
    rw [startIndex] at h
    cases hindex : RunningOrder.index? ⟨rundown.spots⟩ id with
    | some index => simp [hindex] at h
    | none =>
      rw [hindex] at h hfound
      refine ⟨id, rfl, fun hm => ?_, (Except.error.inj h).symm⟩
      exact absurd (hfound.trans (Rundown.isSome_line?.mpr hm)) Bool.false_ne_true

theorem update_fails {removed : List (Id .line)}
    (h : (publisher.update rundown start mode token removed).1 = .error fault) :
    Fails rundown start token fault := by
  have outcome := publisher.update_outcome rundown start mode token removed
  generalize publisher.update rundown start mode token removed = answer at h outcome
  cases outcome with
  | unordered horder =>
    obtain ⟨name, repeats, rfl⟩ := Rundown.order_eq_error_iff.mp horder
    exact Except.error.inj h ▸ .repeats repeats
  | noStart hindex =>
    obtain ⟨id, hstart, absent, rfl⟩ := startIndex_error hindex
    exact Except.error.inj h ▸ .start hstart absent
  | failed _ hpass =>
    obtain rfl := Except.error.inj h
    rcases pass_fails hpass with ⟨hcancelled, rfl⟩ | ⟨spot, hs, item, hi, offends⟩
    · exact .cancelled hcancelled
    · exact .item (Rundown.line_mem hs) hi offends
  | published => cases h

theorem Fails.ne_diverged (h : Fails rundown start token fault) : fault ≠ .diverged := by
  cases h with
  | repeats | start | cancelled => simp
  | item _ _ offends => cases offends <;> simp

/-- Of a sound rundown, an update that starts on one of its lines fails only where it is cancelled. -/
theorem Fails.of_sound (sound : rundown.Sound) (hstart : ∀ id ∈ start, (rundown.line? id).isSome)
    (h : Fails rundown start token fault) : fault = .cancelled ∧ token ≠ .unset := by
  cases h with
  | repeats repeats =>
    exact nomatch (Rundown.order_of_distinct sound.toDistinct).symm.trans
      (Rundown.order_eq_error_iff.mpr ⟨_, repeats, rfl⟩)
  | start hid absent => exact absurd (Rundown.isSome_line?.mp (hstart _ hid)) absent
  | cancelled htoken => exact ⟨rfl, htoken⟩
  | item hl hi offends =>
    cases offends with
    | layer absent => exact absurd (sound.registered _ hl _ hi) absent
    | duration _ lasts negative =>
      exact absurd (sound.durations _ hl _ hi lasts) (Int64.not_le.mpr negative)

end Publisher

theorem Rundown.Sound.of_moved {rundown rest changed : Rundown} {line : Line}
    (sound : rundown.Sound) (taken : rest.ExtendedBy rundown line)
    (put : rest.ExtendedBy changed line) : changed.Sound := by
  obtain ⟨before, after, hrest, hold⟩ := taken.lines
  obtain ⟨before', after', hrest', hnew⟩ := put.lines
  refine sound.of_subperm (taken.frame.symm.trans put.frame) (List.Perm.subperm ?_)
  calc changed.lines
    _ = before' ++ line :: after' := hnew
    List.Perm _ (line :: (before' ++ after')) := List.perm_middle
    _ = line :: (before ++ after) := by rw [← hrest', hrest]
    List.Perm _ (before ++ line :: after) := List.perm_middle.symm
    _ = rundown.lines := hold.symm

namespace Edit

/-- All that a move can be refused for, where nothing repeats. -/
inductive MoveRefused (rundown : Rundown) (line : Id .line) (segment : Id .segment)
    (token : Token) : Fault → Prop where
  | line : line ∉ rundown.lines.map (·.id) →
    MoveRefused rundown line segment token (.notFound line.name)
  | segment : line ∈ rundown.lines.map (·.id) → segment ∉ rundown.segments.map (·.id) →
    MoveRefused rundown line segment token (.notFound segment.name)
  | cancelled : line ∈ rundown.lines.map (·.id) → segment ∈ rundown.segments.map (·.id) →
    token ≠ .unset → MoveRefused rundown line segment token .cancelled

variable {rundown : Rundown} {line : Id .line} {segment : Id .segment} {index : UInt64}

theorem moveLine_of_no_line (distinct : rundown.Distinct) (hline : line ∉ rundown.lines.map (·.id)) :
    (moveLine line segment index).change.apply rundown =
      (.error (.notFound line.name), rundown) := by
  have hindex : RunningOrder.index? ⟨rundown.spots⟩ line = none := by
    rw [← Option.not_isSome_iff_eq_none, RunningOrder.isSome_index?, Rundown.isSome_line?]
    exact hline
  rw [change, Change.apply_bind, Change.apply_locate distinct, hindex]

theorem moveLine_of_no_segment (distinct : rundown.Distinct)
    (hline : line ∈ rundown.lines.map (·.id)) (hsegment : segment ∉ rundown.segments.map (·.id)) :
    (moveLine line segment index).change.apply rundown =
      (.error (.notFound segment.name), rundown) := by
  obtain ⟨old, hlocate⟩ :=
    locate_of_refers distinct (Rundown.isSome_line?.mpr hline) (.notFound line.name)
  have hnone : rundown.segment? segment = none := by
    rw [← Option.not_isSome_iff_eq_none, Rundown.isSome_segment?]
    exact hsegment
  rw [change, Change.bind_of_ok hlocate]
  dsimp only
  rw [Change.apply_bind, Change.apply_moveLine distinct, hnone]

theorem sound_made_moveLine (sound : rundown.Sound) (hline : (rundown.line? line).isSome)
    (hsegment : (rundown.segment? segment).isSome) (index : UInt64) :
    ((moveLine line segment index).made rundown).Sound := by
  obtain ⟨_, _, -, taken, put⟩ :=
    Change.moveLine_ok (apply_moveLine_of_refers sound.toDistinct hline hsegment index)
  exact sound.of_moved taken put

end Edit

namespace Session

variable {session : Session} {rundown changed : Rundown} {publisher : Publisher} {line : Id .line}
  {segment : Id .segment} {index : UInt64} {token : Token} {upkeep : Upkeep} {fault : Fault}

theorem keepUp_fails_of_sound (sound : rundown.Sound) (starts : upkeep.StartsIn rundown)
    (h : (keepUp publisher rundown token upkeep).1 = .error fault) :
    fault = .cancelled ∧ token ≠ .unset := by
  cases upkeep with
  | recompute start mode removed => exact (Publisher.update_fails h).of_sound sound starts
  | forget line => cases h

/-- Once the change is made, an edit fails only by what it asks for then. -/
theorem keepUp_of_apply_error {edit : Edit}
    (hchange : edit.change.apply session.rundown = (.ok upkeep, changed))
    (h : (session.apply edit token).1 = .error fault) :
    (keepUp session.publisher changed token upkeep).1 = .error fault := by
  rw [apply, hchange] at h
  dsimp only at h
  cases hkeep : keepUp session.publisher changed token upkeep with
  | mk answer publisher =>
    rw [hkeep] at h
    cases answer with
    | error found => exact congrArg _ (Except.error.inj h)
    | ok report => cases h

theorem Coherent.moveLine_fails (h : session.Coherent)
    (hfault : (session.apply (.moveLine line segment index) token).1 = .error fault) :
    Edit.MoveRefused session.rundown line segment token fault := by
  have distinct := h.sound.toDistinct
  by_cases hline : line ∈ session.rundown.lines.map (·.id)
  · by_cases hsegment : segment ∈ session.rundown.segments.map (·.id)
    · have hline' := Rundown.isSome_line?.mpr hline
      have hsegment' := Rundown.isSome_segment?.mpr hsegment
      have sound := Edit.sound_made_moveLine h.sound hline' hsegment' index
      obtain ⟨upkeep, hchange, starts⟩ := Edit.moveLine_of_refers distinct hline' hsegment' sound
      obtain ⟨rfl, hc⟩ := keepUp_fails_of_sound sound starts (keepUp_of_apply_error hchange hfault)
      exact .cancelled hline hsegment hc
    · rw [apply, Edit.moveLine_of_no_segment distinct hline hsegment] at hfault
      obtain rfl := Except.error.inj hfault
      exact .segment hline hsegment
  · rw [apply, Edit.moveLine_of_no_line distinct hline] at hfault
    obtain rfl := Except.error.inj hfault
    exact .line hline

/-- No recompute ends over a settled lane, whatever the board shows. No move in a session loses the
line on the way or finds it there already: it fails only over an absent line or segment, or because
it is cancelled. -/
theorem internal_faults_unreachable {settings : Settings} (h : start rundown settings = .ok session)
    (edits : List (Edit × Token)) :
    (∀ (publisher : Publisher) (rundown : Rundown) (start : Option (Id .line)) (mode : Mode)
      (token : Token), (publisher.recompute rundown start mode token).1 ≠ .error .diverged) ∧
    let here := (session.run edits).2
    ∀ line segment index token fault,
      (here.apply (.moveLine line segment index) token).1 = .error fault →
        (∀ moved, fault ≠ .lostWhileMoving moved) ∧ (∀ name, fault ≠ .duplicate name) ∧
        Edit.MoveRefused here.rundown line segment token fault := by
  constructor
  · intro publisher rundown start mode token hfault
    exact (Publisher.update_fails hfault).ne_diverged rfl
  · intro here line segment index token fault hfault
    have refused := (run_coherent (start_coherent h) edits).moveLine_fails hfault
    refine ⟨fun moved => ?_, fun name => ?_, refused⟩
    · cases refused <;> simp
    · cases refused <;> simp

theorem bulletin_internal_faults_unreachable :
    let session : Session := ⟨Rundown.bulletin, (Rundown.bulletin.fullRun .standard).2⟩
    let here := (session.run [(.removeLine ⟨"weather"⟩, .unset)]).2
    let move : Edit := .moveLine ⟨"headlines"⟩ ⟨"sports"⟩ 0
    (here.apply move (.setAfter 0)).1 = .error (.notFound ⟨.segment, "sports"⟩) ∧
      Edit.MoveRefused here.rundown ⟨"headlines"⟩ ⟨"sports"⟩ true (.notFound ⟨.segment, "sports"⟩) ∧
      (here.publisher.recompute here.rundown none .suffix (.setAfter 0)).1 ≠ .error .diverged := by
  intro session here move
  have hfault : (here.apply move (.setAfter 0)).1 = .error (.notFound ⟨.segment, "sports"⟩) := by rfl
  obtain ⟨recomputes, moves⟩ :=
    internal_faults_unreachable start_bulletin [(.removeLine ⟨"weather"⟩, .unset)]
  exact ⟨hfault, (moves _ _ _ _ _ hfault).2.2, recomputes _ _ _ _ _⟩

end Session

end OnAir
