import OnAir.Edit
import OnAir.Proofs.Change
import OnAir.Proofs.RunningOrder

set_option autoImplicit false

namespace OnAir

namespace Change

variable {rundown changed : Rundown}

theorem onItem_ok {id : Id .item} {check : Item → Except Fault Unit} {f : Item → Item}
    {line : Id .line} (h : (onItem id check f).apply rundown = (.ok line, changed)) :
    rundown.LineChanged changed line := by
  obtain ⟨r, _, hget, h⟩ := bind_ok h
  obtain ⟨rfl, rfl⟩ := get_ok hget
  dsimp only at h
  split at h
  · obtain ⟨_, _, hcheck, h⟩ := bind_ok h
    obtain ⟨-, rfl⟩ := ofExcept_ok hcheck
    exact Rundown.modifyItem?_eq_some (update_ok h)
  · exact Rundown.modifyItem?_eq_some (update_ok h)

theorem onLine_ok {id : Id .line} {f : Line → Line}
    (h : (onLine id f).apply rundown = (.ok (), changed)) (hf : ∀ line, (f line).id = line.id) :
    rundown.LineChanged changed id := by
  obtain ⟨changed', hmodify, heq⟩ := Option.map_eq_some_iff.mp (update_ok h)
  obtain ⟨-, rfl⟩ := Prod.mk.inj heq
  exact Rundown.modifyLine?_eq_some hf hmodify

inductive InsertOutcome (segment : Id .segment) (index : Nat) (line : Line) (rundown : Rundown) :
    Except Fault Unit × Rundown → Prop where
  | repeats : line.id ∈ rundown.lines.map (·.id) →
    InsertOutcome segment index line rundown (.error (.duplicate line.id.name), rundown)
  | nowhere : line.id ∉ rundown.lines.map (·.id) → segment ∉ rundown.segments.map (·.id) →
    InsertOutcome segment index line rundown (.error (.notFound segment.name), rundown)
  | put {changed : Rundown} : line.id ∉ rundown.lines.map (·.id) →
    rundown.LinePut segment index line changed →
    InsertOutcome segment index line rundown (.ok (), changed)

inductive RemoveOutcome (id : Id .line) (rundown : Rundown) : Except Fault Line × Rundown → Prop where
  | absent : id ∉ rundown.lines.map (·.id) →
    RemoveOutcome id rundown (.error (.notFound id.name), rundown)
  | taken {line : Line} {changed : Rundown} : line.id = id → rundown.LineTaken line changed →
    RemoveOutcome id rundown (.ok line, changed)

/-- All that moving a line can come to. Where its identifier repeats the line is not put back. -/
inductive MoveOutcome (id : Id .line) (segment : Id .segment) (index : Nat) (rundown : Rundown) :
    Except Fault Unit × Rundown → Prop where
  | nowhere : segment ∉ rundown.segments.map (·.id) →
    MoveOutcome id segment index rundown (.error (.notFound segment.name), rundown)
  | absent : segment ∈ rundown.segments.map (·.id) → id ∉ rundown.lines.map (·.id) →
    MoveOutcome id segment index rundown (.error (.notFound id.name), rundown)
  | lost {line : Line} {rest : Rundown} : segment ∈ rundown.segments.map (·.id) → line.id = id →
    rundown.LineTaken line rest → id ∈ rest.lines.map (·.id) →
    MoveOutcome id segment index rundown (.error (.duplicate id.name), rest)
  | moved {line : Line} {rest changed : Rundown} : line.id = id → rundown.LineTaken line rest →
    id ∉ rest.lines.map (·.id) → rest.LinePut segment index line changed →
    MoveOutcome id segment index rundown (.ok (), changed)

theorem insertLine_outcome (segment : Id .segment) (index : Nat) (line : Line) (rundown : Rundown) :
    InsertOutcome segment index line rundown ((insertLine segment index line).apply rundown) := by
  rw [insertLine, bind_of_ok (apply_get rundown)]
  split
  · next repeats => exact .repeats (Rundown.isSome_line?.mp repeats)
  · next fresh =>
    have hfresh : line.id ∉ rundown.lines.map (·.id) := fun hm => fresh (Rundown.isSome_line?.mpr hm)
    rw [apply_update]
    cases hput : rundown.modifySegment? segment fun held => held.insertAt index line with
    | none => exact .nowhere hfresh (Rundown.modifySegment?_eq_none_iff.mp hput)
    | some changed => exact .put hfresh (Rundown.insertAt_eq_some hput)

theorem removeLine_outcome (id : Id .line) (rundown : Rundown) :
    RemoveOutcome id rundown ((removeLine id).apply rundown) := by
  rw [removeLine, apply_update]
  cases htake : rundown.takeLine? id with
  | none => exact .absent (Rundown.takeLine?_eq_none_iff.mp htake)
  | some found =>
    obtain ⟨hid, taken⟩ := Rundown.takeLine?_eq_some htake
    exact .taken hid taken

theorem moveLine_outcome (id : Id .line) (segment : Id .segment) (index : Nat) (rundown : Rundown) :
    MoveOutcome id segment index rundown ((moveLine id segment index).apply rundown) := by
  rw [moveLine, bind_of_ok (apply_get rundown)]
  have hfound : (rundown.segment? segment).isSome ↔ _ := Rundown.isSome_segment?
  cases hsegment : rundown.segment? segment with
  | none =>
    rw [hsegment] at hfound
    exact .nowhere fun hm => nomatch hfound.mpr hm
  | some held =>
    rw [hsegment] at hfound
    have hsegment := hfound.mp rfl
    change MoveOutcome id segment index rundown ((removeLine id >>= _).apply rundown)
    rw [apply_bind]
    have removed := removeLine_outcome id rundown
    generalize (removeLine id).apply rundown = run at removed ⊢
    cases removed with
    | absent habsent => exact .absent hsegment habsent
    | taken hid taken =>
      next line rest =>
      obtain rfl := hid
      have inserted := insertLine_outcome segment index line rest
      dsimp only
      generalize (insertLine segment index line).apply rest = run at inserted ⊢
      cases inserted with
      | repeats again => exact .lost hsegment rfl taken again
      | nowhere _ gone => exact absurd (taken.extendedBy.frame.segments ▸ hsegment) gone
      | put fresh put => exact .moved rfl taken fresh put

theorem insertLine_put {segment : Id .segment} {index : Nat} {line : Line}
    (h : (insertLine segment index line).apply rundown = (.ok (), changed)) :
    line.id ∉ rundown.lines.map (·.id) ∧ rundown.LinePut segment index line changed := by
  have outcome := insertLine_outcome segment index line rundown
  rw [h] at outcome
  cases outcome with
  | put fresh put => exact ⟨fresh, put⟩

theorem removeLine_taken {id : Id .line} {line : Line}
    (h : (removeLine id).apply rundown = (.ok line, changed)) :
    line.id = id ∧ rundown.LineTaken line changed := by
  have outcome := removeLine_outcome id rundown
  rw [h] at outcome
  cases outcome with
  | taken hid taken => exact ⟨hid, taken⟩

theorem removeItem_ok {id : Id .item} {line : Id .line} {item : Item}
    (h : (removeItem id).apply rundown = (.ok (line, item), changed)) :
    rundown.LineChanged changed line :=
  Rundown.takeItem?_eq_some (update_ok h)

theorem moveLine_ok {id : Id .line} {segment : Id .segment} {index : Nat}
    (h : (moveLine id segment index).apply rundown = (.ok (), changed)) :
    ∃ line rest, line.id = id ∧ Rundown.ExtendedBy rest rundown line ∧
      Rundown.ExtendedBy rest changed line := by
  have outcome := moveLine_outcome id segment index rundown
  rw [h] at outcome
  cases outcome with
  | moved hid taken _ put => exact ⟨_, _, hid, taken.extendedBy, put.extendedBy⟩

theorem locate_ok {line : Id .line} {absent : Fault} {order : RunningOrder} {index : Nat}
    (h : (locate line absent).apply rundown = (.ok (order, index), changed)) :
    rundown = changed ∧ rundown.Distinct ∧ order = ⟨rundown.spots⟩ ∧
      order.index? line = some index := by
  obtain ⟨r, _, hget, h⟩ := bind_ok h
  obtain ⟨rfl, rfl⟩ := get_ok hget
  obtain ⟨order', _, hof, h⟩ := bind_ok h
  obtain ⟨horder, rfl⟩ := ofExcept_ok hof
  obtain ⟨hnodup, rfl⟩ := Rundown.order_eq_ok_iff.mp horder
  have distinct := Rundown.names_nodup_iff.mp hnodup
  cases hi : RunningOrder.index? ⟨r.spots⟩ line with
  | none =>
    rw [hi] at h
    exact (throw_ok h).elim
  | some found =>
    rw [hi] at h
    obtain ⟨heq, rfl⟩ := pure_ok h
    obtain ⟨rfl, rfl⟩ := Prod.mk.inj heq
    exact ⟨rfl, distinct, rfl, hi⟩

end Change

namespace Edit

/-- What an edit that succeeds has done to a rundown, with what it asks for. -/
inductive Effect (rundown changed : Rundown) : Upkeep → Prop where
  | unchanged (start : Option (Id .line)) (mode : Mode) (same : rundown = changed) :
    Effect rundown changed (.recompute start mode [])
  | lineChanged {line : Id .line} (h : rundown.LineChanged changed line) :
    Effect rundown changed (.recompute (some line) .suffix [])
  | lineInserted {line : Line} (h : rundown.ExtendedBy changed line) :
    Effect rundown changed (.recompute (some line.id) .runToEnd [])
  | lineRemoved {before after : List Spot} {spot next : Spot} (frame : rundown.SameFrame changed)
    (old : rundown.spots = before ++ spot :: next :: after)
    (new : changed.spots = before ++ next :: after) :
    Effect rundown changed (.recompute (some next.line.id) .runToEnd [spot.line.id])
  | lastRemoved {before : List Spot} {spot : Spot} (distinct : rundown.Distinct)
    (frame : rundown.SameFrame changed) (old : rundown.spots = before ++ [spot])
    (new : changed.spots = before) :
    Effect rundown changed (.forget spot.line.id)
  | lineMoved {before after before' after' : List Spot} {segment segment' : Id .segment}
    {line : Line} (frame : rundown.SameFrame changed) (rest : before ++ after = before' ++ after')
    (old : rundown.spots = before ++ ⟨segment, line⟩ :: after)
    (new : changed.spots = before' ++ ⟨segment', line⟩ :: after') :
    Effect rundown changed (.recompute
      ((RunningOrder.spot? ⟨changed.spots⟩ (min before.length before'.length)).map (·.line.id))
      .runToEnd [])

variable {rundown changed : Rundown}

theorem index_of_locate {line : Line} {absent : Fault} {order : RunningOrder} {index : Nat}
    (h : (Change.locate line.id absent).apply rundown = (.ok (order, index), changed))
    {before after : List Spot} {segment : Id .segment}
    (hs : rundown.spots = before ++ ⟨segment, line⟩ :: after) :
    rundown = changed ∧ order = ⟨rundown.spots⟩ ∧ index = before.length := by
  obtain ⟨hsame, distinct, rfl, hindex⟩ := Change.locate_ok h
  have hat := RunningOrder.index?_of_split (distinct.lineIds_nodup hs)
  rw [hs, hat] at hindex
  exact ⟨hsame, rfl, (Option.some.inj hindex).symm⟩

/-- Removing a line takes its spot out, and asks for an update from the next one on, if there is one. -/
theorem removeLine_ok {id : Id .line} {upkeep : Upkeep}
    (h : (removeLine id).change.apply rundown = (.ok upkeep, changed)) :
    rundown.Distinct ∧ rundown.SameFrame changed ∧ ∃ before spot after, spot.line.id = id ∧
      rundown.spots = before ++ spot :: after ∧ changed.spots = before ++ after ∧
      upkeep = after.head?.elim (.forget id) fun next =>
        .recompute (some next.line.id) .runToEnd [id] := by
  obtain ⟨⟨order, index⟩, _, hlocate, h⟩ := Change.bind_ok h
  obtain ⟨rfl, distinct, -⟩ := Change.locate_ok hlocate
  obtain ⟨removed, rest, hremove, h⟩ := Change.bind_ok h
  obtain ⟨rfl, taken⟩ := Change.removeLine_taken hremove
  obtain ⟨frame, before, segment, after, hnew, hold⟩ := taken.extendedBy
  obtain ⟨-, rfl, rfl⟩ := index_of_locate hlocate hold
  have hnext : RunningOrder.spot? ⟨rundown.spots⟩ (before.length + 1) = after.head? := by
    rw [RunningOrder.spot?, hold, List.getElem?_append_right (by omega), Nat.add_sub_cancel_left]
    exact List.head?_eq_getElem?.symm
  rw [hnext] at h
  cases after with
  | nil =>
    obtain ⟨rfl, rfl⟩ := Change.pure_ok h
    exact ⟨distinct, frame.symm, before, _, [], rfl, hold, hnew, rfl⟩
  | cons next after =>
    obtain ⟨rfl, rfl⟩ := Change.pure_ok h
    exact ⟨distinct, frame.symm, before, _, next :: after, rfl, hold, hnew, rfl⟩

theorem effect_removeLine {line : Id .line} {upkeep : Upkeep}
    (h : (removeLine line).change.apply rundown = (.ok upkeep, changed)) :
    Effect rundown changed upkeep := by
  obtain ⟨distinct, frame, before, spot, after, rfl, hold, hnew, rfl⟩ := removeLine_ok h
  cases after with
  | nil => exact .lastRemoved distinct frame hold (hnew.trans (List.append_nil before))
  | cons next after => exact .lineRemoved frame hold hnew

theorem effect_moveLine {line : Id .line} {segment : Id .segment} {index : UInt64} {upkeep : Upkeep}
    (h : (moveLine line segment index).change.apply rundown = (.ok upkeep, changed)) :
    Effect rundown changed upkeep := by
  obtain ⟨⟨_, old⟩, _, hlocate, h⟩ := Change.bind_ok h
  obtain ⟨rfl, -⟩ := Change.locate_ok hlocate
  obtain ⟨_, moved, hmove, h⟩ := Change.bind_ok h
  obtain ⟨⟨order, new⟩, _, hlocate', h⟩ := Change.bind_ok h
  obtain ⟨rfl, rfl⟩ := Change.pure_ok h
  obtain ⟨removed, rest, rfl, ⟨frame, before, source, after, hrest, hold⟩,
    ⟨frame', before', target, after', hrest', hnew⟩⟩ := Change.moveLine_ok hmove
  obtain ⟨-, -, rfl⟩ := index_of_locate hlocate hold
  obtain ⟨rfl, rfl, rfl⟩ := index_of_locate hlocate' hnew
  exact .lineMoved (frame.symm.trans frame') (hrest.symm.trans hrest') hold hnew

theorem effect_of_change {edit : Edit} {upkeep : Upkeep}
    (h : edit.change.apply rundown = (.ok upkeep, changed)) : Effect rundown changed upkeep := by
  cases edit with
  | setItemDuration id duration =>
    obtain ⟨line, hitem, rfl⟩ := Change.map_ok h
    exact .lineChanged (Change.onItem_ok hitem)
  | setItemReach id reach =>
    obtain ⟨line, hitem, rfl⟩ := Change.map_ok h
    exact .lineChanged (Change.onItem_ok hitem)
  | setItemContent id content =>
    obtain ⟨line, hitem, rfl⟩ := Change.map_ok h
    exact .lineChanged (Change.onItem_ok hitem)
  | insertItem line item =>
    obtain ⟨_, _, hsound, h⟩ := Change.bind_ok h
    obtain ⟨-, rfl⟩ := Change.ofExcept_ok hsound
    obtain ⟨r, _, hget, h⟩ := Change.bind_ok h
    obtain ⟨rfl, rfl⟩ := Change.get_ok hget
    dsimp only at h
    split at h
    · obtain ⟨_, _, hthrow, -⟩ := Change.bind_ok h
      exact (Change.throw_ok hthrow).elim
    · obtain ⟨_, hline, rfl⟩ := Change.map_ok h
      exact .lineChanged (Change.onLine_ok hline fun _ => rfl)
  | removeItem id =>
    obtain ⟨⟨line, item⟩, hremove, rfl⟩ := Change.map_ok h
    exact .lineChanged (Change.removeItem_ok hremove)
  | setLineDuration line duration =>
    obtain ⟨_, hline, rfl⟩ := Change.map_ok h
    exact .lineChanged (Change.onLine_ok hline fun _ => rfl)
  | insertLine segment index line =>
    obtain ⟨_, _, hsound, h⟩ := Change.bind_ok h
    obtain ⟨-, rfl⟩ := Change.ofExcept_ok hsound
    obtain ⟨_, hinsert, rfl⟩ := Change.map_ok h
    exact .lineInserted (Change.insertLine_put hinsert).2.extendedBy
  | removeLine line => exact effect_removeLine h
  | moveLine line segment index => exact effect_moveLine h
  | recompute start runToEnd =>
    obtain ⟨rfl, rfl⟩ := Change.pure_ok h
    exact .unchanged start _ rfl

end Edit

end OnAir
