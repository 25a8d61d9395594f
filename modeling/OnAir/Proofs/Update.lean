import OnAir.Proofs.Publisher

set_option autoImplicit false

namespace OnAir.Publisher

variable {publisher : Publisher} {rundown : Rundown} {start : Option (Id .line)} {mode : Mode}
  {token : Token} {removed : List (Id .line)}

theorem startIndex_of_split {before after : List Spot} {spot : Spot}
    (h : ((before ++ spot :: after).map (·.line.id)).Nodup) :
    startIndex ⟨before ++ spot :: after⟩ (some spot.line.id) = .ok before.length := by
  rw [startIndex, RunningOrder.index?_of_split h]

theorem update_of_distinct (h : rundown.Distinct) {index : Nat}
    (hi : startIndex ⟨rundown.spots⟩ start = .ok index) :
    publisher.update rundown start mode token removed =
      match publisher.pass rundown.layerIds ⟨rundown.spots⟩ index mode token with
      | .error fault => (.error fault, publisher)
      | .ok (first, pass) =>
        (.ok (publisher.publish ⟨rundown.spots⟩ mode first pass removed).1,
          (publisher.publish ⟨rundown.spots⟩ mode first pass removed).2) := by
  rw [update, Rundown.order_of_distinct h]
  dsimp only
  cases hstart : startIndex ⟨rundown.spots⟩ start with
  | error fault => exact nomatch hstart.symm.trans hi
  | ok found =>
    obtain rfl := Except.ok.inj (hstart.symm.trans hi)
    rfl

/-- All that an update can come to: one of its steps fails, or what its pass found is published. -/
inductive UpdateOutcome (publisher : Publisher) (rundown : Rundown) (start : Option (Id .line))
    (mode : Mode) (token : Token) (removed : List (Id .line)) :
    Except Fault Report × Publisher → Prop where
  | unordered {fault : Fault} : rundown.order = .error fault →
    UpdateOutcome publisher rundown start mode token removed (.error fault, publisher)
  | noStart {fault : Fault} : startIndex ⟨rundown.spots⟩ start = .error fault →
    UpdateOutcome publisher rundown start mode token removed (.error fault, publisher)
  | failed {index : Nat} {fault : Fault} : startIndex ⟨rundown.spots⟩ start = .ok index →
    publisher.pass rundown.layerIds ⟨rundown.spots⟩ index mode token = .error fault →
    UpdateOutcome publisher rundown start mode token removed (.error fault, publisher)
  | published {index first : Nat} {pass : Pass} : rundown.Distinct →
    startIndex ⟨rundown.spots⟩ start = .ok index →
    publisher.pass rundown.layerIds ⟨rundown.spots⟩ index mode token = .ok (first, pass) →
    UpdateOutcome publisher rundown start mode token removed
      (.ok (publisher.publish ⟨rundown.spots⟩ mode first pass removed).1,
        (publisher.publish ⟨rundown.spots⟩ mode first pass removed).2)

theorem update_outcome (publisher : Publisher) (rundown : Rundown) (start : Option (Id .line))
    (mode : Mode) (token : Token) (removed : List (Id .line)) :
    UpdateOutcome publisher rundown start mode token removed
      (publisher.update rundown start mode token removed) := by
  cases horder : rundown.order with
  | error fault =>
    rw [update, horder]
    exact .unordered horder
  | ok order =>
    obtain ⟨nodup, rfl⟩ := Rundown.order_eq_ok_iff.mp horder
    have distinct := Rundown.names_nodup_iff.mp nodup
    cases hindex : startIndex ⟨rundown.spots⟩ start with
    | error fault =>
      rw [update, horder]
      dsimp only
      rw [hindex]
      exact .noStart hindex
    | ok index =>
      rw [update_of_distinct distinct hindex]
      cases hpass : publisher.pass rundown.layerIds ⟨rundown.spots⟩ index mode token with
      | error fault => exact .failed hindex hpass
      | ok found => exact .published distinct hindex hpass

theorem update_ok {report : Report} {new : Publisher}
    (h : publisher.update rundown start mode token removed = (.ok report, new)) :
    rundown.Distinct ∧ ∃ index first pass,
      startIndex ⟨rundown.spots⟩ start = .ok index ∧
      publisher.pass rundown.layerIds ⟨rundown.spots⟩ index mode token = .ok (first, pass) ∧
      publisher.publish ⟨rundown.spots⟩ mode first pass removed = (report, new) := by
  have outcome := publisher.update_outcome rundown start mode token removed
  rw [h] at outcome
  cases outcome with
  | published distinct hindex hpass => exact ⟨distinct, _, _, _, hindex, hpass, rfl⟩

theorem update_error {fault : Fault}
    (h : (publisher.update rundown start mode token removed).1 = .error fault) :
    (publisher.update rundown start mode token removed).2 = publisher := by
  have outcome := publisher.update_outcome rundown start mode token removed
  generalize publisher.update rundown start mode token removed = answer at h outcome
  cases outcome with
  | unordered | noStart | failed => rfl
  | published => cases h

section Token

theorem walkFrom_token (walk : Walk) (order : RunningOrder) (first : Nat) (lanes : List Lane)
    (mode : Mode) (token : Token) :
    walkFrom walk order first lanes mode token = .error .cancelled ∨
      walkFrom walk order first lanes mode token = walkFrom walk order first lanes mode .unset := by
  rw [walkFrom, walkFrom]
  dsimp only
  rcases walk.run_token mode token (order.segmentBefore? first) lanes 0 (order.since first) with
    h | ⟨left, h⟩
  · exact .inl (by rw [h])
  · rw [h]
    cases hrun : walk.run mode .unset (order.segmentBefore? first) lanes 0 (order.since first) with
    | error fault => exact .inr rfl
    | ok outcome =>
      cases outcome with
      | done pass => exact .inr rfl
      | stuck token =>
        obtain rfl := Walk.token_of_stuck hrun
        -- The walk is taken again with what is left of the token.
        rcases walk.run_token .runToEnd left (order.segmentBefore? first) lanes 0
            (order.since first) with hagain | ⟨_, hagain⟩
        · exact .inl (by simp only [Except.map, Outcome.leaving, hagain])
        · refine .inr ?_
          simp only [Except.map, Outcome.leaving, hagain]
          rcases walk.run .runToEnd .unset (order.segmentBefore? first) lanes 0
            (order.since first) with fault | pass | token <;> rfl

theorem pass_token (publisher : Publisher) (layers : List (Id .layer)) (order : RunningOrder)
    (index : Nat) (mode : Mode) (token : Token) :
    publisher.pass layers order index mode token = .error .cancelled ∨
      publisher.pass layers order index mode token =
        publisher.pass layers order index mode .unset := by
  have map {first : Nat} {lanes : List Lane} (mode : Mode) :
      let found (token : Token) := (walkFrom (publisher.walk layers) order first lanes mode token).map
        fun pass => (first, pass)
      found token = .error .cancelled ∨ found token = found .unset := by
    intro found
    rcases walkFrom_token (publisher.walk layers) order first lanes mode token with h | h
    · exact .inl (congrArg (Except.map _) h)
    · exact .inr (congrArg (Except.map _) h)
  rw [pass, pass]
  cases order.lanesInto? layers publisher.board index with
  | some lanes => exact map mode
  | none => exact map .runToEnd

/-- An update is cancelled and changes nothing, or goes as it would with a token that is never set. -/
theorem update_token (publisher : Publisher) (rundown : Rundown) (start : Option (Id .line))
    (mode : Mode) (token : Token) (removed : List (Id .line)) :
    publisher.update rundown start mode token removed = (.error .cancelled, publisher) ∨
      publisher.update rundown start mode token removed =
        publisher.update rundown start mode .unset removed := by
  rw [update, update]
  cases rundown.order with
  | error fault => exact .inr rfl
  | ok order =>
    dsimp only
    cases startIndex order start with
    | error fault => exact .inr rfl
    | ok index =>
      dsimp only
      rcases publisher.pass_token rundown.layerIds order index mode token with h | h
      · exact .inl (by rw [h])
      · exact .inr (by rw [h])

theorem update_of_token {report : Report} {new : Publisher}
    (h : publisher.update rundown start mode token removed = (.ok report, new)) :
    publisher.update rundown start mode .unset removed = (.ok report, new) := by
  rcases publisher.update_token rundown start mode token removed with hcancelled | hsame
  · exact nomatch h.symm.trans hcancelled
  · exact hsame.symm.trans h

end Token

section FromLine

variable {before spots : List Spot}

/-- With the lines before and the lines left out right on the old board, all lines are right on the
new one. -/
theorem Published.shows_all {walked left : List Spot} {layers : List (Id .layer)}
    {board board' : Board}
    (published : Published before walked layers ⟨before ++ spots⟩ removed board board')
    (hsplit : spots = walked ++ left) (hn : ((before ++ spots).map (·.line.id)).Nodup)
    (hbefore : board.Shows layers .start before)
    (hleft : board.Shows layers (Feeds.start.through (before ++ walked)) left) :
    board'.Shows layers .start (before ++ spots) := by
  subst hsplit
  rw [List.map_append, List.map_append] at hn
  obtain ⟨-, hrest, hdisjoint⟩ := List.nodup_append.mp hn
  have kept {spot : Spot} (hs : spot ∈ before ++ (walked ++ left))
      (hnot : spot.line.id ∉ walked.map (·.line.id)) :
      board'.line? spot.line.id = board.line? spot.line.id :=
    published.others _ (List.mem_map_of_mem hs) hnot
  have showsBefore : board'.Shows layers .start before := by
    refine (Board.shows_congr fun spot hs => ?_).mp hbefore
    refine (kept (List.mem_append_left _ hs) fun hm => ?_).symm
    exact hdisjoint _ (List.mem_map_of_mem hs) _ (List.mem_append_left _ hm) rfl
  have showsLeft : board'.Shows layers (Feeds.start.through (before ++ walked)) left := by
    refine (Board.shows_congr fun spot hs => ?_).mp hleft
    refine (kept (List.mem_append_right _ (List.mem_append_right _ hs)) fun hm => ?_).symm
    exact (List.nodup_append.mp hrest).2.2 _ hm _ (List.mem_map_of_mem hs) rfl
  rw [Feeds.through_append] at showsLeft
  exact Board.shows_append.mpr ⟨showsBefore, Board.shows_append.mpr ⟨published.shows, showsLeft⟩⟩

structure Refreshed (rundown : Rundown) (removed : List (Id .line)) (old new : Board) : Prop where
  shows : new.Shows rundown.layerIds .start rundown.spots
  dropped : ∀ id, id ∉ rundown.lines.map (·.id) → new.line? id = none ∨
    (id ∉ removed ∧ new.line? id = old.line? id)

theorem Published.refreshed {walked left : List Spot} {board board' : Board}
    (published : Published before walked rundown.layerIds ⟨before ++ spots⟩ removed board board')
    (distinct : rundown.Distinct) (hs : rundown.spots = before ++ spots)
    (hsplit : spots = walked ++ left) (hbefore : board.Shows rundown.layerIds .start before)
    (hleft : board.Shows rundown.layerIds (Feeds.start.through (before ++ walked)) left) :
    Refreshed rundown removed board board' := by
  constructor
  · rw [hs]
    exact published.shows_all hsplit (distinct.lineIds_nodup hs) hbefore hleft
  · intro id hid
    refine published.dropped id fun hm => hid ?_
    rw [← hs] at hm
    exact Rundown.mem_lineIds.mp hm

theorem update_runToEnd (sound : rundown.Sound) (hs : rundown.spots = before ++ spots)
    (hi : startIndex ⟨before ++ spots⟩ start = .ok before.length)
    (shows : publisher.board.Shows rundown.layerIds .start before) :
    ∃ report new, publisher.update rundown start .runToEnd .unset removed = (.ok report, new) ∧
      Refreshed rundown removed publisher.board new.board := by
  have checks : ∀ spot ∈ spots, spot.line.check rundown.layerIds = .ok () := fun spot hm =>
    sound.check (hs ▸ List.mem_append_right before hm)
  have hpass := pass_runToEnd (sound.itemIds_nodup hs) shows
  rw [forM_eq_ok_iff.mpr checks] at hpass
  have hnodup := sound.lineIds_nodup hs
  rw [← List.append_nil spots] at hnodup
  have published := published_publish hnodup (show (publisher.walk rundown.layerIds).board = _ from rfl)
    ⟨_, spots.length, false⟩ rfl .runToEnd before.length removed
  rw [List.append_nil] at published
  rw [update_of_distinct sound.toDistinct (hs ▸ hi), hs, hpass]
  exact ⟨_, _, rfl,
    published.refreshed sound.toDistinct hs (List.append_nil spots).symm shows trivial⟩

theorem checks_of_update (hs : rundown.spots = before ++ spots)
    (hi : startIndex ⟨before ++ spots⟩ start = .ok before.length)
    (shows : publisher.board.Shows rundown.layerIds .start before) {report : Report}
    {new : Publisher}
    (h : publisher.update rundown start .runToEnd .unset removed = (.ok report, new)) :
    ∀ spot ∈ spots, spot.line.check rundown.layerIds = .ok () := by
  obtain ⟨distinct, index, first, pass, hindex, hp, -⟩ := update_ok h
  rw [hs, hi] at hindex
  obtain rfl := Except.ok.inj hindex
  rw [hs, pass_runToEnd (distinct.itemIds_nodup hs) shows] at hp
  refine forM_eq_ok_iff.mp ?_
  cases hchecks : spots.forM fun spot => spot.line.check rundown.layerIds with
  | ok => rfl
  | error fault =>
    rw [hchecks] at hp
    exact nomatch hp

theorem check_of_update {spot : Spot} {rest : List Spot}
    (hs : rundown.spots = before ++ spot :: rest)
    (hi : startIndex ⟨before ++ spot :: rest⟩ start = .ok before.length)
    (shows : publisher.board.Shows rundown.layerIds .start before) {report : Report}
    {new : Publisher}
    (h : publisher.update rundown start mode .unset removed = (.ok report, new)) :
    spot.line.check rundown.layerIds = .ok () := by
  obtain ⟨distinct, index, first, pass, hindex, hp, -⟩ := update_ok h
  rw [hs, hi] at hindex
  obtain rfl := Except.ok.inj hindex
  rw [hs, pass_of_shows (distinct.itemIds_nodup hs) shows, walkFrom,
    RunningOrder.since_of_split] at hp
  cases hcheck : spot.line.check rundown.layerIds with
  | ok => rfl
  | error fault =>
    dsimp only at hp
    rw [Walk.run_of_check_error mode hcheck] at hp
    cases hp

/-- An update that may stop early shows on each line that it walked what comes of the lines before,
and the board agrees with that on all the lines left. -/
theorem update_suffix (distinct : rundown.Distinct) (hs : rundown.spots = before ++ spots)
    (hi : startIndex ⟨before ++ spots⟩ start = .ok before.length)
    (shows : publisher.board.Shows rundown.layerIds .start before)
    (trust : publisher.board.Trusts rundown.layerIds false (Feeds.start.through before) spots)
    (checks : ∀ spot ∈ spots, spot.line.check rundown.layerIds = .ok ()) :
    ∃ report new walked left, spots = walked ++ left ∧ (walked = [] → left = []) ∧
      publisher.update rundown start .suffix .unset removed = (.ok report, new) ∧
      Published before walked rundown.layerIds ⟨before ++ spots⟩ removed publisher.board new.board ∧
      ∀ y ∈ rundown.layerIds,
        publisher.board.Agrees y ((Feeds.start.through (before ++ walked)) y) left := by
  obtain ⟨walked, left, rfl, hfirst, hpass, agrees⟩ :=
    pass_suffix (distinct.itemIds_nodup hs) shows trust checks
  have published := published_publish (distinct.lineIds_nodup hs)
    (show (publisher.walk rundown.layerIds).board = _ from rfl) ⟨_, walked.length, !left.isEmpty⟩ rfl
    .suffix before.length removed
  rw [update_of_distinct distinct (hs ▸ hi), hs, hpass]
  exact ⟨_, _, walked, left, rfl, hfirst, rfl, published, agrees⟩

end FromLine

end OnAir.Publisher
