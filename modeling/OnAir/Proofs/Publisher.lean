import OnAir.Proofs.Seed

set_option autoImplicit false

namespace OnAir.Publisher

variable {publisher : Publisher} {order : RunningOrder} {removed : List (Id .line)}

def dropsOthers (publisher : Publisher) (start : Nat) (pass : Pass) : Bool :=
  start = 0 && !pass.early && publisher.settings.dropsOrphans

theorem prune_eq (publisher : Publisher) (order : RunningOrder) (start : Nat) (pass : Pass)
    (removed : List (Id .line)) :
    publisher.prune order start pass removed =
      let forgotten := publisher.board.forget (removed.filter fun id => !order.contains id)
      if publisher.dropsOthers start pass then
        (forgotten.1 + (forgotten.2.lines.size - (forgotten.2.keep order.contains).lines.size),
          forgotten.2.keep order.contains)
      else forgotten := rfl

theorem line?_prune (publisher : Publisher) (order : RunningOrder) (start : Nat) (pass : Pass)
    (removed : List (Id .line)) (id : Id .line) :
    (publisher.prune order start pass removed).2.line? id =
      if order.contains id = true then publisher.board.line? id
      else if id ∈ removed ∨ publisher.dropsOthers start pass = true then none
      else publisher.board.line? id := by
  have hforget := publisher.board.line?_forget (removed.filter fun id => !order.contains id) id
  simp only [List.mem_filter, Bool.not_eq_true'] at hforget
  rw [prune_eq]
  by_cases hc : order.contains id = true
  · rw [if_neg (by rw [hc]; exact fun h => nomatch h.2)] at hforget
    rw [if_pos hc]
    dsimp only
    split
    · rw [Board.line?_keep, if_pos hc, hforget]
    · exact hforget
  · rw [if_neg hc]
    rw [Bool.not_eq_true] at hc
    dsimp only
    split
    · next hd => rw [Board.line?_keep, hc, if_neg Bool.false_ne_true, if_pos (.inr hd)]
    · next hd =>
      rw [hforget]
      by_cases hr : id ∈ removed
      · rw [if_pos ⟨hr, hc⟩, if_pos (.inl hr)]
      · rw [if_neg fun h => hr h.1, if_neg fun h => h.elim hr hd]

theorem line?_of_prune_eq_zero {start : Nat} {pass : Pass}
    (h : (publisher.prune order start pass removed).1 = 0) (id : Id .line) :
    (publisher.prune order start pass removed).2.line? id = publisher.board.line? id := by
  rw [prune_eq] at h ⊢
  dsimp only at h ⊢
  split at h
  · next hd =>
    have hle := Board.size_keep_le
      (publisher.board.forget (removed.filter fun id => !order.contains id)).2 order.contains
    rw [if_pos hd, Board.line?_of_keep_size_eq (by omega),
      Board.line?_of_forget_eq_zero (by omega)]
  · next hd => rw [if_neg hd, Board.line?_of_forget_eq_zero h]

theorem line?_publish (publisher : Publisher) (order : RunningOrder) (mode : Mode) (start : Nat)
    (pass : Pass) (removed : List (Id .line)) (id : Id .line) :
    (publisher.publish order mode start pass removed).2.board.line? id =
      ((publisher.prune order start pass removed).2.putAll pass.writes).line? id := by
  change Board.line? (if pass.writes.length = 0 ∧
    (publisher.prune order start pass removed).1 = 0 then publisher.board
    else ((publisher.prune order start pass removed).2.putAll pass.writes).advance) id = _
  split
  · next h =>
    rw [List.length_eq_zero_iff.mp h.1]
    exact (line?_of_prune_eq_zero h.2 id).symm
  · rfl

theorem line?_publish_of_contains {id : Id .line} (h : order.contains id = true) (mode : Mode)
    (start : Nat) (pass : Pass) (removed : List (Id .line)) :
    (publisher.publish order mode start pass removed).2.board.line? id =
      (publisher.board.putAll pass.writes).line? id := by
  rw [line?_publish]
  exact Board.line?_putAll_congr (by rw [line?_prune, if_pos h]) pass.writes

theorem line?_publish_of_not_contains {id : Id .line} (h : order.contains id = false) {pass : Pass}
    (hw : id ∉ pass.writes.map (·.1)) (mode : Mode) (start : Nat) (removed : List (Id .line)) :
    (publisher.publish order mode start pass removed).2.board.line? id =
      if id ∈ removed ∨ publisher.dropsOthers start pass = true then none
      else publisher.board.line? id := by
  rw [line?_publish, Board.line?_putAll_of_not_mem hw, line?_prune, h, if_neg Bool.false_ne_true]

theorem line?_forget (publisher : Publisher) (ids : List (Id .line)) (id : Id .line) :
    (publisher.forget ids).2.board.line? id =
      if id ∈ ids then none else publisher.board.line? id := by
  have hforget := publisher.board.line?_forget ids id
  change Board.line? (if (publisher.board.forget ids).1 = 0 then publisher.board
    else (publisher.board.forget ids).2.advance) id = _
  split
  · next h => rw [← hforget, Board.line?_of_forget_eq_zero h]
  · exact hforget

/-- What a pass over some lines leaves on the board: those lines show what comes of the lines
before, and the other lines of the order what they showed. -/
structure Published (before walked : List Spot) (layers : List (Id .layer)) (order : RunningOrder)
    (removed : List (Id .line)) (old new : Board) : Prop where
  shows : new.Shows layers (Feeds.start.through before) walked
  others : ∀ id ∈ order.lineIds, id ∉ walked.map (·.line.id) → new.line? id = old.line? id
  dropped : ∀ id, id ∉ order.lineIds → new.line? id = none ∨
    (id ∉ removed ∧ new.line? id = old.line? id)

theorem shows_publish {walk : Walk} {feeds : Feeds} {walked : List Spot}
    (hn : (walked.map (·.line.id)).Nodup)
    (hin : ∀ spot ∈ walked, order.contains spot.line.id = true) (hb : walk.board = publisher.board)
    {pass : Pass} (hw : pass.writes = walk.updates feeds walked) (mode : Mode) (start : Nat)
    (removed : List (Id .line)) :
    (publisher.publish order mode start pass removed).2.board.Shows walk.layers feeds walked := by
  have hshows : ((publisher.prune order start pass removed).2.putAll pass.writes).Shows
      walk.layers feeds walked := by
    rw [hw]
    refine Walk.shows_putAll_updates hn fun spot hs => ?_
    rw [line?_prune, if_pos (hin spot hs), hb]
  exact (Board.shows_congr fun _ _ => line?_publish ..).mpr hshows

theorem published_publish {before walked left : List Spot} {walk : Walk}
    (hn : ((before ++ (walked ++ left)).map (·.line.id)).Nodup) (hb : walk.board = publisher.board)
    (pass : Pass) (hw : pass.writes = walk.updates (Feeds.start.through before) walked) (mode : Mode)
    (start : Nat) (removed : List (Id .line)) :
    Published before walked walk.layers ⟨before ++ (walked ++ left)⟩ removed publisher.board
      (publisher.publish ⟨before ++ (walked ++ left)⟩ mode start pass removed).2.board := by
  have hin : ∀ spot ∈ walked, RunningOrder.contains ⟨before ++ (walked ++ left)⟩ spot.line.id = true :=
    fun spot hs => RunningOrder.contains_iff.mpr (List.mem_map_of_mem
      (List.mem_append_right _ (List.mem_append_left _ hs)))
  have hkeys (id : Id .line) (h : id ∉ walked.map (·.line.id)) : id ∉ pass.writes.map (·.1) := by
    rw [hw]
    exact fun hm => h ((walk.updates_keys_sublist _ walked).subset hm)
  constructor
  · have hwalked : (walked.map (·.line.id)).Nodup := by
      rw [List.map_append, List.map_append] at hn
      exact (List.nodup_append.mp (List.nodup_append.mp hn).2.1).1
    exact shows_publish hwalked hin hb hw mode start removed
  · intro id hid hnot
    rw [line?_publish_of_contains (RunningOrder.contains_iff.mpr hid),
      Board.line?_putAll_of_not_mem (hkeys id hnot)]
  · intro id hid
    have hnot : id ∉ walked.map (·.line.id) := by
      intro hm
      obtain ⟨spot, hs, rfl⟩ := List.mem_map.mp hm
      exact hid (RunningOrder.contains_iff.mp (hin spot hs))
    have habsent : RunningOrder.contains ⟨before ++ (walked ++ left)⟩ id = false :=
      Bool.eq_false_iff.mpr fun h => hid (RunningOrder.contains_iff.mp h)
    rw [line?_publish_of_not_contains habsent (hkeys id hnot)]
    split
    · exact .inl rfl
    · next h => exact .inr ⟨fun hr => h (.inl hr), rfl⟩

section Pass

variable {layers : List (Id .layer)} {before spots : List Spot}

/-- All that walking from a start can come to: what the last of its walks ends with. -/
inductive WalkOutcome (walk : Walk) (order : RunningOrder) (first : Nat) (lanes : List Lane)
    (mode : Mode) : Except Fault Pass → Prop where
  | done {mode' : Mode} {pass : Pass} : (mode' = .suffix → mode = .suffix) →
    walk.run mode' .unset (order.segmentBefore? first) lanes 0 (order.since first) =
      .ok (.done pass) →
    WalkOutcome walk order first lanes mode (.ok pass)
  | failed {mode' : Mode} {fault : Fault} :
    walk.run mode' .unset (order.segmentBefore? first) lanes 0 (order.since first) =
      .error fault →
    WalkOutcome walk order first lanes mode (.error fault)
  | diverged {token : Token} :
    walk.run .runToEnd .unset (order.segmentBefore? first) lanes 0 (order.since first) =
      .ok (.stuck token) →
    WalkOutcome walk order first lanes mode (.error .diverged)

theorem walkFrom_outcome (walk : Walk) (order : RunningOrder) (first : Nat) (lanes : List Lane)
    (mode : Mode) :
    WalkOutcome walk order first lanes mode (walkFrom walk order first lanes mode .unset) := by
  rw [walkFrom]
  dsimp only
  cases hrun : walk.run mode .unset (order.segmentBefore? first) lanes 0 (order.since first) with
  | error fault => exact .failed hrun
  | ok outcome =>
    cases outcome with
    | done pass => exact .done id hrun
    | stuck token =>
      obtain rfl := Walk.token_of_stuck hrun
      dsimp only
      cases hagain : walk.run .runToEnd .unset (order.segmentBefore? first) lanes 0
          (order.since first) with
      | error fault => exact .failed hagain
      | ok outcome =>
        cases outcome with
        | done pass => exact .done (by simp) hagain
        | stuck token => exact .diverged hagain

theorem walkFrom_ok {walk : Walk} {first : Nat} {lanes : List Lane} {mode : Mode} {pass : Pass}
    (h : walkFrom walk order first lanes mode .unset = .ok pass) :
    ∃ mode', (mode' = .suffix → mode = .suffix) ∧
      walk.run mode' .unset (order.segmentBefore? first) lanes 0 (order.since first) =
        .ok (.done pass) := by
  have outcome := walkFrom_outcome walk order first lanes mode
  rw [h] at outcome
  cases outcome with
  | done hmode hrun => exact ⟨_, hmode, hrun⟩

/-- A pass that succeeds is one walk, from the index that was asked for or, where the board does not
fit the line before it, from the first line to the last. -/
theorem pass_ok {index first : Nat} {mode : Mode} {pass : Pass}
    (h : publisher.pass layers order index mode .unset = .ok (first, pass)) :
    ∃ lanes mode', order.lanesInto? layers publisher.board first = some lanes ∧
      (publisher.walk layers).run mode' .unset (order.segmentBefore? first) lanes 0 (order.since first) =
        .ok (.done pass) ∧
      ((first = index ∧ (mode' = .suffix → mode = .suffix)) ∨
        (order.lanesInto? layers publisher.board index = none ∧ first = 0 ∧ mode' = .runToEnd)) := by
  have found {first' : Nat} {lanes : List Lane} {mode : Mode}
      (h : (walkFrom (publisher.walk layers) order first' lanes mode .unset).map (first', ·) =
        .ok (first, pass)) :
      first = first' ∧ ∃ mode', (mode' = .suffix → mode = .suffix) ∧ (publisher.walk layers).run mode'
        .unset (order.segmentBefore? first') lanes 0 (order.since first') = .ok (.done pass) := by
    cases hfrom : walkFrom (publisher.walk layers) order first' lanes mode .unset with
    | error fault => rw [hfrom] at h; cases h
    | ok pass' =>
      rw [hfrom] at h
      obtain ⟨rfl, rfl⟩ := Prod.mk.inj (Except.ok.inj h)
      exact ⟨rfl, walkFrom_ok hfrom⟩
  rw [Publisher.pass] at h
  cases hlanes : order.lanesInto? layers publisher.board index with
  | some lanes =>
    rw [hlanes] at h
    obtain ⟨rfl, mode', hmode, hrun⟩ := found h
    exact ⟨lanes, mode', hlanes, hrun, .inl ⟨rfl, hmode⟩⟩
  | none =>
    rw [hlanes] at h
    obtain ⟨rfl, mode', hmode, hrun⟩ := found h
    cases mode' with
    | suffix => exact nomatch hmode rfl
    | runToEnd => exact ⟨layers.map Lane.idle, .runToEnd, rfl, hrun, .inr ⟨rfl, rfl, rfl⟩⟩

theorem pass_writes {index first : Nat} {mode : Mode} {pass : Pass}
    (h : publisher.pass layers order index mode .unset = .ok (first, pass)) :
    (pass.writes.map (·.1)).Sublist order.lineIds ∧
      ∀ write ∈ pass.writes, publisher.board.line? write.1 ≠ some write.2 := by
  obtain ⟨_, _, -, hrun, -⟩ := pass_ok h
  exact (Walk.run_writes hrun).imp_left fun h => h.trans ((List.drop_sublist ..).map _)

theorem pass_of_shows
    (hn : ((before ++ spots).flatMap fun s => s.line.items.map (·.id)).Nodup)
    (shows : publisher.board.Shows layers .start before) (mode : Mode) :
    publisher.pass layers ⟨before ++ spots⟩ before.length mode .unset =
      (walkFrom (publisher.walk layers) ⟨before ++ spots⟩ before.length
        ((publisher.walk layers).lanes fun y => .live ((Feeds.start.through before) y).carry)
        mode .unset).map (before.length, ·) := by
  rw [pass, RunningOrder.lanesInto?_of_shows hn rfl shows]
  rfl

theorem last_through (before spots : List Spot) (y : Id .layer) :
    ((Feeds.start.through before) y).last =
      RunningOrder.segmentBefore? ⟨before ++ spots⟩ before.length :=
  (RunningOrder.segmentBefore?_of_split y).symm

theorem onTrack_through (publisher : Publisher) (layers : List (Id .layer))
    (before spots : List Spot) :
    ∀ y ∈ layers, OnTrack publisher.board y ((Feeds.start.through before) y) spots
      (.live ((Feeds.start.through before) y).carry) := fun _ _ => .inl rfl

theorem pass_runToEnd
    (hn : ((before ++ spots).flatMap fun s => s.line.items.map (·.id)).Nodup)
    (shows : publisher.board.Shows layers .start before) :
    publisher.pass layers ⟨before ++ spots⟩ before.length .runToEnd .unset =
      (spots.forM fun spot => spot.line.check layers).map fun _ =>
        (before.length, ⟨(publisher.walk layers).updates (Feeds.start.through before) spots,
          spots.length, false⟩) := by
  have hrun : (publisher.walk layers).run .runToEnd .unset
      (RunningOrder.segmentBefore? ⟨before ++ spots⟩ before.length)
      ((publisher.walk layers).lanes fun y => .live ((Feeds.start.through before) y).carry) 0 spots =
        (spots.forM fun spot => spot.line.check layers).map fun _ => .done
          ⟨(publisher.walk layers).updates (Feeds.start.through before) spots, 0 + spots.length, false⟩ :=
    Walk.run_runToEnd (publisher.walk layers) (last_through before spots)
      (onTrack_through publisher layers before spots) 0
  rw [pass_of_shows hn shows, walkFrom, RunningOrder.since_of_split]
  dsimp only
  rw [hrun]
  cases spots.forM fun spot => spot.line.check layers with
  | error fault => rfl
  | ok =>
    rw [Nat.zero_add]
    rfl

/-- A pass that may stop early notes what comes of the lines before, and stops only where the board
agrees with that on all the lines left. -/
theorem pass_suffix
    (hn : ((before ++ spots).flatMap fun s => s.line.items.map (·.id)).Nodup)
    (shows : publisher.board.Shows layers .start before)
    (trust : publisher.board.Trusts layers false (Feeds.start.through before) spots)
    (checks : ∀ spot ∈ spots, spot.line.check layers = .ok ()) :
    ∃ walked left, spots = walked ++ left ∧ (walked = [] → left = []) ∧
      publisher.pass layers ⟨before ++ spots⟩ before.length .suffix .unset =
        .ok (before.length, ⟨(publisher.walk layers).updates (Feeds.start.through before) walked,
          walked.length, !left.isEmpty⟩) ∧
      ∀ y ∈ layers, publisher.board.Agrees y ((Feeds.start.through (before ++ walked)) y) left := by
  obtain ⟨walked, left, hsplit, hfirst, hrun, agrees⟩ :=
    Walk.run_suffix (publisher.walk layers) (last_through before spots)
      (onTrack_through publisher layers before spots) 0 trust checks
  refine ⟨walked, left, hsplit, hfirst, ?_, ?_⟩
  · rw [pass_of_shows hn shows, walkFrom, RunningOrder.since_of_split]
    dsimp only
    rw [hrun, Nat.zero_add]
    rfl
  · rw [Feeds.through_append]
    exact agrees

end Pass

end OnAir.Publisher
