import OnAir.Proofs.Repeat
import OnAir.Proofs.Session

set_option autoImplicit false

namespace OnAir

namespace Walk

variable {walk : Walk} {feeds : Feeds} {last : Option (Id .segment)} {spots : List Spot}

/-- A walk to the end looks at its token on the line that is `due` lines ahead, and on each that is
a multiple of the interval behind that one. It is cancelled just if one of these looks is one too
many. -/
theorem run_cancelled_iff (hlast : ∀ y, (feeds y).last = last)
    (checks : ∀ spot ∈ spots, spot.line.check walk.layers = .ok ()) {visited due : Nat}
    (hdue : due < walk.pollEvery) (hnext : (visited + due) % walk.pollEvery = 0) (looks : Nat) :
    walk.run .runToEnd (.setAfter looks) last (walk.lanes fun y => .live (feeds y).carry) visited
        spots = .error .cancelled ↔
      due + looks * walk.pollEvery < spots.length := by
  induction spots generalizing feeds last visited due looks with
  | nil => simp [run]
  | cons spot rest ih =>
    obtain ⟨hcheck, checks⟩ := List.forall_mem_cons.mp checks
    -- Past the first line, the walk over the others is cancelled or not.
    have hrest (token : Token) (hpoll : walk.poll? (.setAfter looks) visited = some token) :
        walk.run .runToEnd (.setAfter looks) last (walk.lanes fun y => .live (feeds y).carry) visited
            (spot :: rest) = .error .cancelled ↔
          walk.run .runToEnd token (some spot.segment)
            (walk.lanes fun y => .live ((feeds.past spot) y).carry) (visited + 1) rest =
              .error .cancelled := by
      have hline := walk.line_live hlast spot
      rw [run, hpoll]
      simp only [hcheck, hline, reduceCtorEq, decide_false, Bool.false_and, Bool.false_eq_true,
        if_false, Outcome.map_eq_error]
    rw [List.length_cons]
    cases due with
    | succ due =>
      have hpoll : walk.poll? (.setAfter looks) visited = some (.setAfter looks) := by
        refine if_neg fun hzero => ?_
        rw [Nat.add_mod, hzero, Nat.zero_add, Nat.mod_mod, Nat.mod_eq_of_lt hdue] at hnext
        exact Nat.succ_ne_zero due hnext
      have hnext' : (visited + 1 + due) % walk.pollEvery = 0 := by rwa [Nat.add_right_comm]
      rw [hrest _ hpoll, ih (last_past feeds spot) checks (Nat.lt_of_succ_lt hdue) hnext' looks]
      omega
    | zero =>
      cases looks with
      | zero =>
        have hpoll : walk.poll? (.setAfter 0) visited = none := if_pos hnext
        rw [run, hpoll]
        simp
      | succ looks =>
        have hpoll : walk.poll? (.setAfter (looks + 1)) visited = some (.setAfter looks) :=
          if_pos hnext
        have hnext' : (visited + 1 + (walk.pollEvery - 1)) % walk.pollEvery = 0 := by
          rw [Nat.add_assoc, Nat.add_sub_cancel' hdue, Nat.add_mod_right]
          exact hnext
        rw [hrest _ hpoll, ih (last_past feeds spot) checks (Nat.sub_lt hdue Nat.one_pos) hnext' looks,
          Nat.succ_mul]
        omega

end Walk

namespace Publisher

variable {publisher result : Publisher} {rundown : Rundown} {order : RunningOrder}
  {start : Option (Id .line)} {mode : Mode} {removed : List (Id .line)}

theorem spots_eq_nil_of_since {index : Nat} (hi : startIndex order start = .ok index)
    (h : (order.since index).isEmpty = true) : order.spots = [] := by
  cases start with
  | none =>
    obtain rfl := Except.ok.inj hi
    exact List.isEmpty_iff.mp h
  | some id =>
    rw [startIndex] at hi
    cases hindex : order.index? id with
    | none =>
      rw [hindex] at hi
      cases hi
    | some found =>
      rw [hindex] at hi
      obtain rfl := Except.ok.inj hi
      obtain ⟨before, spot, after, hs, rfl, -⟩ := RunningOrder.split_of_index? hindex
      rw [RunningOrder.since, hs, List.drop_left] at h
      exact absurd h Bool.false_ne_true

theorem walkFrom_cancelled (walk : Walk) (order : RunningOrder) (first : Nat) (lanes : List Lane)
    (mode : Mode) :
    walkFrom walk order first lanes mode (.setAfter 0) =
      if (order.since first).isEmpty then .ok ⟨[], 0, false⟩ else .error .cancelled := by
  rw [walkFrom]
  cases order.since first with
  | nil => rfl
  | cons spot rest =>
    dsimp only
    rw [Walk.run_cancelled]
    rfl

theorem walkFrom_of_empty {order : RunningOrder} {first : Nat}
    (h : (order.since first).isEmpty = true) (walk : Walk) (lanes : List Lane) (mode : Mode)
    (token : Token) : walkFrom walk order first lanes mode token = .ok ⟨[], 0, false⟩ := by
  rw [walkFrom, List.isEmpty_iff.mp h]
  rfl

theorem walkFrom_cancelled_iff (walk : Walk) (order : RunningOrder) (carry : Id .layer → Option Carry)
    (token : Token) :
    walkFrom walk order 0 (walk.lanes fun y => .live (carry y)) .runToEnd token = .error .cancelled ↔
      walk.run .runToEnd token none (walk.lanes fun y => .live (carry y)) 0 order.spots =
        .error .cancelled := by
  have hnever := walk.run_runToEnd_ne_stuck (fun _ => rfl : ∀ y, (Feed.last ⟨none, carry y⟩) = none)
    0 order.spots
  have hstart : order.since 0 = order.spots := rfl
  rw [walkFrom, RunningOrder.segmentBefore?, hstart]
  dsimp only
  rcases walk.run_token .runToEnd token none (walk.lanes fun y => .live (carry y)) 0 order.spots with
    h | ⟨left, h⟩
  · simp only [h]
  · rw [h]
    cases hrun : walk.run .runToEnd .unset none (walk.lanes fun y => .live (carry y)) 0
        order.spots with
    | error fault => simp [Except.map]
    | ok outcome =>
      cases outcome with
      | done pass => simp [Except.map, Outcome.leaving]
      | stuck token => exact absurd hrun (hnever token)

theorem zero_lt_pollEvery_walk (publisher : Publisher) (layers : List (Id .layer)) :
    0 < (publisher.walk layers).pollEvery := Nat.lt_of_lt_of_le Nat.one_pos (Nat.le_max_right _ 1)

theorem pass_cancelled {layers : List (Id .layer)} {index : Nat} (hs : order.spots ≠ [])
    (hi : startIndex order start = .ok index) :
    publisher.pass layers order index mode (.setAfter 0) = .error .cancelled := by
  have hall : ¬ (order.since 0).isEmpty = true := fun h => hs (List.isEmpty_iff.mp h)
  have hrest : ¬ (order.since index).isEmpty = true := fun h => hs (spots_eq_nil_of_since hi h)
  rw [pass]
  cases order.lanesInto? layers publisher.board index with
  | none =>
    dsimp only
    rw [walkFrom_cancelled, if_neg hall]
    rfl
  | some lanes =>
    dsimp only
    rw [walkFrom_cancelled, if_neg hrest]
    rfl

theorem pass_of_no_spots {spots : List Spot} (hs : spots = []) (publisher : Publisher)
    (layers : List (Id .layer)) (index : Nat) (mode : Mode) (token : Token) :
    publisher.pass layers ⟨spots⟩ index mode token =
      .ok (if (RunningOrder.lanesInto? ⟨spots⟩ layers publisher.board index).isSome then index else 0,
        ⟨[], 0, false⟩) := by
  subst hs
  have hempty (index : Nat) : (RunningOrder.since ⟨[]⟩ index).isEmpty = true := by
    rw [RunningOrder.since, List.drop_nil]
    rfl
  rw [pass]
  cases RunningOrder.lanesInto? ⟨[]⟩ layers publisher.board index with
  | none =>
    dsimp only
    rw [walkFrom_of_empty (hempty 0)]
    rfl
  | some lanes =>
    dsimp only
    rw [walkFrom_of_empty (hempty index)]
    rfl

theorem update_cancelled (h : rundown.spots ≠ []) :
    ∃ fault, publisher.update rundown start mode (.setAfter 0) removed = (.error fault, publisher) := by
  cases hanswer : (publisher.update rundown start mode (.setAfter 0) removed).1 with
  | error fault => exact ⟨fault, Prod.ext hanswer (update_error hanswer)⟩
  | ok report =>
    obtain ⟨-, index, first, pass, hi, hpass, -⟩ := update_ok (Prod.ext hanswer rfl)
    exact nomatch (pass_cancelled h hi).symm.trans hpass

/-- A recompute over all lines is cancelled just if it looks at its token more often than that is
found unset. It looks on the first line, and then as often as the settings say. -/
theorem recompute_cancelled_iff (sound : rundown.Sound) (publisher : Publisher) (looks : Nat) :
    publisher.recompute rundown none .runToEnd (.setAfter looks) = (.error .cancelled, publisher) ↔
      looks * max publisher.settings.pollEvery 1 < rundown.lines.length := by
  have hrun := Walk.run_cancelled_iff (fun _ => rfl : ∀ y, (Feeds.start y).last = none)
    (fun _ hs => sound.check hs) (publisher.zero_lt_pollEvery_walk rundown.layerIds)
    (Nat.zero_mod _) looks
  have hlength : rundown.spots.length = rundown.lines.length := by
    rw [← List.length_map (·.line.id), Rundown.map_lineId_spots, List.length_map]
  rw [Nat.zero_add, hlength] at hrun
  have hfrom := (walkFrom_cancelled_iff (publisher.walk rundown.layerIds) ⟨rundown.spots⟩
    (fun _ => none) (.setAfter looks)).trans hrun
  have hpass : publisher.pass rundown.layerIds ⟨rundown.spots⟩ 0 .runToEnd (.setAfter looks) =
      (walkFrom (publisher.walk rundown.layerIds) ⟨rundown.spots⟩ 0
        (rundown.layerIds.map Lane.idle) .runToEnd (.setAfter looks)).map (0, ·) := rfl
  rw [recompute, update_of_distinct sound.toDistinct
    (show startIndex ⟨rundown.spots⟩ none = .ok 0 from rfl), hpass]
  refine Iff.trans ?_ hfrom
  change _ ↔ walkFrom (publisher.walk rundown.layerIds) ⟨rundown.spots⟩ 0
    (rundown.layerIds.map Lane.idle) .runToEnd (.setAfter looks) = .error .cancelled
  cases walkFrom (publisher.walk rundown.layerIds) ⟨rundown.spots⟩ 0
    (rundown.layerIds.map Lane.idle) .runToEnd (.setAfter looks) with
  | error fault => simp [Except.map]
  | ok pass => simp [Except.map]

theorem update_of_no_spots (h : rundown.spots = []) (token : Token) :
    publisher.update rundown start mode token removed =
      publisher.update rundown start mode .unset removed := by
  rw [update, update]
  cases ho : rundown.order with
  | error fault => rfl
  | ok order =>
    obtain ⟨-, rfl⟩ := Rundown.order_eq_ok_iff.mp ho
    dsimp only
    cases startIndex ⟨rundown.spots⟩ start with
    | error fault => rfl
    | ok index =>
      dsimp only
      rw [pass_of_no_spots h, pass_of_no_spots h]

theorem update_current_of_no_spots (hs : rundown.spots = [])
    (current : publisher.board.Current rundown) {token : Token} {report : Report}
    (h : publisher.update rundown start mode token [] = (.ok report, result)) :
    result = publisher := by
  obtain ⟨-, index, first, pass, -, hpass, hpublish⟩ := update_ok h
  rw [pass_of_no_spots hs] at hpass
  obtain ⟨-, rfl⟩ := Prod.mk.inj (Except.ok.inj hpass)
  have clean (id : Id .line) : publisher.board.line? id = none := by
    refine current.only id ?_
    rw [← Rundown.map_lineId_spots, hs]
    exact List.not_mem_nil
  obtain ⟨_, hnothing, -⟩ :=
    publish_nothing publisher mode (show (Pass.mk [] 0 false).writes = [] from rfl)
      fun _ id _ => clean id
  exact congrArg Prod.snd (hpublish.symm.trans hnothing)

end Publisher

namespace Edit

variable {rundown changed : Rundown} {edit : Edit}

def RemovesLast (edit : Edit) (rundown : Rundown) : Prop :=
  ∃ spot ∈ rundown.spots.getLast?, edit = .removeLine spot.line.id

theorem eq_removeLine_of_forget {id : Id .line}
    (h : edit.change.apply rundown = (.ok (.forget id), changed)) : edit = .removeLine id := by
  cases edit with
  | setItemDuration | setItemReach | setItemContent | removeItem | setLineDuration =>
    obtain ⟨_, -, hask⟩ := Change.map_ok h
    exact nomatch hask
  | insertItem line item =>
    obtain ⟨_, _, -, h⟩ := Change.bind_ok h
    obtain ⟨_, _, -, h⟩ := Change.bind_ok h
    dsimp only at h
    split at h
    · obtain ⟨_, _, hthrow, -⟩ := Change.bind_ok h
      exact (Change.throw_ok hthrow).elim
    · obtain ⟨_, -, hask⟩ := Change.map_ok h
      exact nomatch hask
  | insertLine segment index line =>
    obtain ⟨_, _, -, h⟩ := Change.bind_ok h
    obtain ⟨_, -, hask⟩ := Change.map_ok h
    exact nomatch hask
  | removeLine line =>
    obtain ⟨-, -, _, _, after, -, -, -, hask⟩ := removeLine_ok h
    cases after with
    | nil => exact congrArg removeLine (Upkeep.forget.inj hask).symm
    | cons next after => exact nomatch hask
  | moveLine line segment index =>
    obtain ⟨_, _, -, h⟩ := Change.bind_ok h
    obtain ⟨_, _, -, h⟩ := Change.bind_ok h
    obtain ⟨_, -, hask⟩ := Change.map_ok h
    exact nomatch hask
  | recompute start runToEnd => exact nomatch (Change.pure_ok h).1

theorem Effect.unchanged_of_no_spots {start : Option (Id .line)} {mode : Mode}
    {removed : List (Id .line)} (h : Effect rundown changed (.recompute start mode removed))
    (hs : changed.spots = []) : removed = [] ∧ rundown = changed := by
  have hnot (before after : List Spot) (spot : Spot) : ¬ changed.spots = before ++ spot :: after :=
    fun heq => List.append_ne_nil_of_right_ne_nil before (List.cons_ne_nil spot after)
      (heq.symm.trans hs)
  cases h with
  | unchanged start mode same => exact ⟨rfl, same⟩
  | lineChanged h =>
    obtain ⟨before, spot, line, after, -, -, -, hnew⟩ := h.place
    exact absurd hnew (hnot before after { spot with line })
  | lineInserted h =>
    obtain ⟨before, segment, after, -, hnew⟩ := h.place
    exact absurd hnew (hnot before after _)
  | lineRemoved frame old new => exact absurd new (hnot _ _ _)
  | lineMoved frame rest old new => exact absurd new (hnot _ _ _)

theorem RemovesLast.forget {upkeep : Upkeep} (h : edit.RemovesLast rundown)
    (hchange : edit.change.apply rundown = (.ok upkeep, changed)) : ∃ id, upkeep = .forget id := by
  obtain ⟨last, hlast, rfl⟩ := h
  obtain ⟨distinct, -, before, spot, after, hid, hold, -, rfl⟩ := removeLine_ok hchange
  cases after with
  | nil => exact ⟨last.line.id, rfl⟩
  | cons next after =>
    -- The line is found once, before the next one, so it is not the last.
    have hnodup := distinct.lineIds_nodup hold
    rw [List.map_append, List.map_cons] at hnodup
    have hmem : last ∈ next :: after := by
      rw [hold, List.getLast?_append_cons, List.getLast?_cons_cons] at hlast
      exact List.mem_of_getLast? hlast
    exact absurd (hid ▸ List.mem_map_of_mem hmem)
      (List.nodup_cons.mp (List.nodup_append.mp hnodup).2.1).1

end Edit

namespace Session

variable {session : Session} {edit : Edit}

/-- An edit that was cancelled beforehand leaves a coherent session as it was, unless it takes away
the last line. -/
theorem Coherent.apply_cancelled (h : session.Coherent) (hlast : ¬ edit.RemovesLast session.rundown) :
    (session.apply edit (.setAfter 0)).2 = session := by
  cases hanswer : (session.apply edit (.setAfter 0)).1 with
  | error fault => exact apply_of_error hanswer
  | ok report =>
    obtain ⟨upkeep, hchange, hkeep⟩ := apply_of_ok hanswer
    -- The edit has been made, so what it asked for was done, and no line was there to walk.
    cases hasked : upkeep with
    | forget line =>
      subst hasked
      obtain rfl := Edit.eq_removeLine_of_forget hchange
      refine absurd ?_ hlast
      generalize hremove : Edit.removeLine line = edit at hchange
      cases Edit.effect_of_change hchange with
      | lastRemoved distinct frame hold hnew =>
        refine ⟨_, ?_, hremove.symm⟩
        rw [hold, List.getLast?_concat]
        rfl
    | recompute start mode removed =>
      subst hasked
      have hnone : (session.apply edit (.setAfter 0)).2.rundown.spots = [] := by
        by_contra hs
        obtain ⟨fault, hfault⟩ := Publisher.update_cancelled hs
        exact nomatch hfault.symm.trans hkeep
      obtain ⟨hremoved, hsame⟩ := (Edit.effect_of_change hchange).unchanged_of_no_spots hnone
      subst hremoved
      rw [← hsame] at hnone hkeep
      have hpublisher := Publisher.update_current_of_no_spots hnone h.current hkeep
      calc (session.apply edit (.setAfter 0)).2
          = ⟨(session.apply edit (.setAfter 0)).2.rundown,
              (session.apply edit (.setAfter 0)).2.publisher⟩ := rfl
        _ = session := by rw [← hsame, hpublisher]

theorem apply_of_removesLast (h : edit.RemovesLast session.rundown) (token : Token) :
    session.apply edit token = session.apply edit .unset := by
  rw [apply, apply]
  cases hchange : edit.change.apply session.rundown with
  | mk answer changed =>
    cases answer with
    | error fault => rfl
    | ok upkeep =>
      obtain ⟨id, rfl⟩ := h.forget hchange
      rfl

/-- A recompute that was cancelled beforehand fails and publishes nothing if the rundown has a line,
and so an edit changes nothing that was, unless it takes away the last line. With no line to walk, a
call goes on as if it were not cancelled. -/
theorem cancelled_changes_nothing {rundown : Rundown} {settings : Settings}
    (h : start rundown settings = .ok session) (edits : List (Edit × Token)) (edit : Edit) :
    (∀ (publisher : Publisher) (rundown : Rundown) (start : Option (Id .line)) (mode : Mode),
      (rundown.spots ≠ [] → ∃ fault,
        publisher.recompute rundown start mode (.setAfter 0) = (.error fault, publisher)) ∧
      (rundown.spots = [] → publisher.recompute rundown start mode (.setAfter 0) =
        publisher.recompute rundown start mode .unset)) ∧
    let here := (session.run edits).2
    (¬ edit.RemovesLast here.rundown → (here.apply edit (.setAfter 0)).2 = here) ∧
      (edit.RemovesLast here.rundown → here.apply edit (.setAfter 0) = here.apply edit .unset) := by
  refine ⟨fun publisher rundown start mode => ⟨?_, fun hs => ?_⟩, ?_, fun hlast => ?_⟩
  · exact Publisher.update_cancelled
  · exact Publisher.update_of_no_spots hs (.setAfter 0)
  · exact (run_coherent (start_coherent h) edits).apply_cancelled
  · exact apply_of_removesLast hlast (.setAfter 0)

theorem cancelled_bulletin_changes_nothing :
    let session : Session := ⟨Rundown.bulletin, (Rundown.bulletin.fullRun .standard).2⟩
    let here := (session.run [(.removeLine ⟨"weather"⟩, .unset)]).2
    here.rundown.lines.map (·.id) = [⟨"headlines"⟩, ⟨"report"⟩] ∧
      (here.apply (.removeLine ⟨"headlines"⟩) (.setAfter 0)).1 = .error .cancelled ∧
      (here.apply (.removeLine ⟨"headlines"⟩) (.setAfter 0)).2 = here := by
  intro session here
  have hnot : ¬ Edit.RemovesLast (.removeLine ⟨"headlines"⟩) here.rundown := by
    rintro ⟨spot, hlast, hremoves⟩
    have hreport : here.rundown.spots.getLast?.map (·.line.id) = some ⟨"report"⟩ := by decide +kernel
    rw [Option.mem_def.mp hlast, Option.map_some, ← Edit.removeLine.inj hremoves] at hreport
    exact absurd hreport (by decide)
  exact ⟨by decide +kernel, by rfl, (cancelled_changes_nothing start_bulletin _ _).2.1 hnot⟩

/-- With a token that is set, the weather is removed and the board published without it, and a
recompute of a rundown that has lost its segments takes all lines off the board. -/
theorem cancelled_bulletin_publishes :
    let session : Session := ⟨Rundown.bulletin, (Rundown.bulletin.fullRun .standard).2⟩
    let after := session.apply (.removeLine ⟨"weather"⟩) (.setAfter 0)
    let emptied :=
      session.publisher.recompute { Rundown.bulletin with segments := [] } none .suffix (.setAfter 0)
    after.1 = .ok ⟨none, .suffix, 0, 0, false, 1, 2⟩ ∧
      after.2.rundown.lines.map (·.id) = [⟨"headlines"⟩, ⟨"report"⟩] ∧
      after.2.publisher.board.line? ⟨"weather"⟩ = none ∧
      emptied.1 = .ok ⟨none, .suffix, 0, 0, false, 3, 2⟩ ∧
      emptied.2.board.line? ⟨"headlines"⟩ = none :=
  ⟨rfl, by decide +kernel, by decide +kernel, rfl, by decide +kernel⟩

end Session

end OnAir
