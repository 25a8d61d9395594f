import OnAir.Proofs.Board

set_option autoImplicit false

/-!
Walks against feeds. Each lane of a walk follows the feed of its layer, or is settled where the
board agrees with the feed from there on (`OnTrack`). One line keeps that, so a walk finds on each
line what comes of the feeds there, and the lines that it leaves out are right on the board already.
-/
namespace OnAir

theorem mapM_eq_some_map {α β : Type} {f : α → Option β} {g : α → β} {l : List α}
    (h : ∀ x ∈ l, f x = some (g x)) : l.mapM f = some (l.map g) := by
  induction l with
  | nil => rfl
  | cons x rest ih =>
    rw [List.mapM_cons, h x List.mem_cons_self, ih fun y hy => h y (List.mem_cons_of_mem x hy)]
    rfl

theorem isSome_of_mapM {α β : Type} {f : α → Option β} {l : List α} {ys : List β}
    (h : l.mapM f = some ys) : ∀ x ∈ l, (f x).isSome = true := by
  induction l generalizing ys with
  | nil => exact fun _ hx => absurd hx List.not_mem_nil
  | cons x rest ih =>
    rw [List.mapM_cons] at h
    obtain ⟨y, hy, h⟩ := Option.bind_eq_some_iff.mp h
    obtain ⟨zs, hzs, -⟩ := Option.bind_eq_some_iff.mp h
    exact List.forall_mem_cons.mpr ⟨Option.isSome_of_eq_some hy, ih hzs⟩

/-- A lane follows its feed, or the board agrees with the feed on all the spots. -/
def OnTrack (board : Board) (layer : Id .layer) (feed : Feed) (spots : List Spot) (flow : Flow) :
    Prop :=
  flow = .live feed.carry ∨ (flow = .settled ∧ board.Agrees layer feed spots)

/-- Wherever the board shows what comes of a feed, it agrees with the feed from there on. The first
line counts only if lanes may settle there. -/
def Board.Trusts (board : Board) (layers : List (Id .layer)) :
    Bool → Feeds → List Spot → Prop
  | _, _, [] => True
  | settling, feeds, spot :: rest =>
    (settling = true → ∀ y ∈ layers,
      board.entry? spot.line.id y = some ((feeds y).entry y spot) →
        board.Agrees y ((feeds y).past y spot) rest) ∧
    Board.Trusts board layers true (feeds.past spot) rest

theorem Board.Shows.trusts {board : Board} {layers layers' : List (Id .layer)}
    (hl : ∀ y ∈ layers, y ∈ layers') {feeds feeds' : Feeds} (hf : feeds.InScope)
    (hf' : feeds'.InScope) {spots : List Spot} (h : board.Shows layers' feeds' spots) :
    board.Trusts layers true feeds spots := by
  induction spots generalizing feeds feeds' with
  | nil => trivial
  | cons spot rest ih =>
    refine ⟨fun _ y hy he => ?_, ih (hf.past spot) (hf'.past spot) h.2⟩
    have heq : (feeds y).entry y spot = (feeds' y).entry y spot :=
      Option.some.inj (he.symm.trans (h.entry? (hl y hy)))
    exact Board.agrees_of_entry_eq (hf y) (hf' y) heq (h.2.agrees (hl y hy))

namespace Lane

def crossed (last : Option (Id .segment)) (segment : Id .segment) (lane : Lane) : Lane :=
  if last = some segment then lane else lane.enter segment

theorem crossed_live {feed : Feed} (segment : Id .segment) (layer : Id .layer) :
    crossed feed.last segment ⟨layer, .live feed.carry⟩ = ⟨layer, .live (feed.into segment)⟩ := by
  rw [crossed, Feed.into]
  split <;> rfl

theorem crossed_settled (last : Option (Id .segment)) (segment : Id .segment) (layer : Id .layer) :
    crossed last segment ⟨layer, .settled⟩ = ⟨layer, .settled⟩ := by
  rw [crossed]
  split <;> rfl

theorem crossed_layer (last : Option (Id .segment)) (segment : Id .segment) (lane : Lane) :
    (crossed last segment lane).layer = lane.layer := by
  rw [crossed, enter]
  split
  · rfl
  · cases lane.flow <;> rfl

theorem step_live (settling : Bool) (layer : Id .layer) (feed : Feed) (spot : Spot)
    (published : Option Lineup) :
    step settling spot published ⟨layer, .live (feed.into spot.segment)⟩ =
      some (feed.entry layer spot,
        ⟨layer,
          if settling && !starts layer spot.line &&
              published.bind (IdMap.get? · layer) = some (feed.entry layer spot) then .settled
          else .live (feed.past layer spot).carry⟩) := rfl

/-- One line takes a lane on its track to what comes of its feed there, and keeps it on track. -/
theorem step_onTrack {board : Board} {layer : Id .layer} {feed : Feed} {spot : Spot}
    {rest : List Spot} {flow : Flow} {settling : Bool}
    (on : OnTrack board layer feed (spot :: rest) flow)
    (trust : settling = true → board.entry? spot.line.id layer = some (feed.entry layer spot) →
      board.Agrees layer (feed.past layer spot) rest) :
    ∃ next, step settling spot (board.line? spot.line.id)
        (crossed feed.last spot.segment ⟨layer, flow⟩) = some (feed.entry layer spot, ⟨layer, next⟩) ∧
      OnTrack board layer (feed.past layer spot) rest next := by
  rcases on with rfl | ⟨rfl, agrees⟩
  · rw [crossed_live, step_live]
    refine ⟨_, rfl, ?_⟩
    split
    · next settles =>
      rw [Bool.and_eq_true, Bool.and_eq_true, decide_eq_true_eq] at settles
      exact .inr ⟨rfl, trust settles.1.1 settles.2⟩
    · exact .inl rfl
  · rw [crossed_settled]
    refine ⟨.settled, ?_, .inr ⟨rfl, agrees.2⟩⟩
    change (Board.entry? board spot.line.id layer).map _ = _
    rw [agrees.1]
    rfl

end Lane

namespace Outcome

variable {f : Pass → Pass} {found : Except Fault Outcome} {token : Token} {pass : Pass}

theorem map_eq_stuck : found.map (map f) = .ok (.stuck token) ↔ found = .ok (.stuck token) := by
  rcases found with fault | pass | token' <;> simp [Except.map, map]

theorem map_eq_done :
    found.map (map f) = .ok (.done pass) ↔ ∃ after, found = .ok (.done after) ∧ f after = pass := by
  rcases found with fault | after | token <;> simp [Except.map, map]

theorem map_eq_error {fault : Fault} :
    found.map (map f) = .error fault ↔ found = .error fault := by
  rcases found with fault' | pass | token <;> simp [Except.map]

def leaving (token : Token) : Outcome → Outcome
  | .done pass => .done pass
  | .stuck _ => .stuck token

theorem map_leaving (found : Except Fault Outcome) :
    (found.map (leaving token)).map (map f) = (found.map (map f)).map (leaving token) := by
  rcases found with fault | pass | token' <;> rfl

end Outcome

namespace Walk

def lanes (walk : Walk) (flow : Id .layer → Flow) : List Lane :=
  walk.layers.map fun layer => ⟨layer, flow layer⟩

theorem cross_lanes (walk : Walk) (last : Option (Id .segment)) (segment : Id .segment)
    (flow : Id .layer → Flow) :
    cross last segment (walk.lanes flow) =
      walk.layers.map fun layer => Lane.crossed last segment ⟨layer, flow layer⟩ := by
  rw [cross, lanes]
  simp only [Lane.crossed]
  split
  · rfl
  · rw [List.map_map]
    rfl

variable {walk : Walk} {feeds : Feeds} {flow : Id .layer → Flow} {last : Option (Id .segment)}

theorem line_of_steps {settling : Bool} {spot : Spot} {entry : Id .layer → Option Airing}
    {next : Id .layer → Flow}
    (h : ∀ y ∈ walk.layers, Lane.step settling spot (walk.board.line? spot.line.id)
      (Lane.crossed last spot.segment ⟨y, flow y⟩) = some (entry y, ⟨y, next y⟩)) :
    walk.line settling spot (cross last spot.segment (walk.lanes flow)) =
      some (.ofList (walk.layers.map fun y => (y, entry y)), walk.lanes next) := by
  rw [line, cross_lanes, List.mapM_map]
  refine (congrArg (Option.map _) (mapM_eq_some_map h)).trans ?_
  rw [Option.map_some, List.map_map, List.map_map]
  rfl

theorem steps_of_line {settling : Bool} {spot : Spot} {lineup : Lineup} {lanes : List Lane}
    (h : walk.line settling spot (cross last spot.segment (walk.lanes flow)) =
      some (lineup, lanes)) :
    ∃ (entry : Id .layer → Option Airing) (next : Id .layer → Flow),
      (∀ y ∈ walk.layers, Lane.step settling spot (walk.board.line? spot.line.id)
        (Lane.crossed last spot.segment ⟨y, flow y⟩) = some (entry y, ⟨y, next y⟩)) ∧
      lineup = .ofList (walk.layers.map fun y => (y, entry y)) ∧ lanes = walk.lanes next := by
  obtain ⟨steps, hsteps, -⟩ := Option.map_eq_some_iff.mp h
  rw [cross_lanes, List.mapM_map] at hsteps
  have each : ∀ y, ∃ entry next, y ∈ walk.layers →
      Lane.step settling spot (walk.board.line? spot.line.id)
        (Lane.crossed last spot.segment ⟨y, flow y⟩) = some (entry, ⟨y, next⟩) := by
    intro y
    by_cases hy : y ∈ walk.layers
    · obtain ⟨⟨entry, lane⟩, hstep⟩ := Option.isSome_iff_exists.mp (isSome_of_mapM hsteps y hy)
      have hlayer : lane.layer = y := (Lane.step_layer hstep).trans (Lane.crossed_layer ..)
      exact ⟨entry, lane.flow, fun _ => hstep.trans (by rw [← hlayer])⟩
    · exact ⟨none, .settled, fun h => absurd h hy⟩
  choose entry next hnext using each
  obtain ⟨hlineup, hlanes⟩ := Prod.mk.inj (Option.some.inj (h.symm.trans (line_of_steps hnext)))
  exact ⟨entry, next, hnext, hlineup, hlanes⟩

theorem line_onTrack {settling : Bool} {spot : Spot} {rest : List Spot}
    (hlast : ∀ y, (feeds y).last = last)
    (on : ∀ y ∈ walk.layers, OnTrack walk.board y (feeds y) (spot :: rest) (flow y))
    (trust : settling = true → ∀ y ∈ walk.layers,
      walk.board.entry? spot.line.id y = some ((feeds y).entry y spot) →
        walk.board.Agrees y ((feeds y).past y spot) rest) :
    ∃ next : Id .layer → Flow,
      walk.line settling spot (cross last spot.segment (walk.lanes flow)) =
        some (feeds.lineup walk.layers spot, walk.lanes next) ∧
      ∀ y ∈ walk.layers, OnTrack walk.board y ((feeds.past spot) y) rest (next y) := by
  have each : ∀ y, ∃ next, y ∈ walk.layers →
      Lane.step settling spot (walk.board.line? spot.line.id)
        (Lane.crossed last spot.segment ⟨y, flow y⟩) = some ((feeds y).entry y spot, ⟨y, next⟩) ∧
      OnTrack walk.board y ((feeds.past spot) y) rest next := by
    intro y
    by_cases hy : y ∈ walk.layers
    · obtain ⟨next, hstep, hon⟩ := Lane.step_onTrack (on y hy) fun hs => trust hs y hy
      exact ⟨next, fun _ => ⟨hlast y ▸ hstep, hon⟩⟩
    · exact ⟨.settled, fun h => absurd h hy⟩
  choose next hnext using each
  exact ⟨next, line_of_steps fun y hy => (hnext y hy).1, fun y hy => (hnext y hy).2⟩

/-- A lane that may not settle is never stuck: it carries what its feed does. -/
theorem line_live (walk : Walk) (hlast : ∀ y, (feeds y).last = last) (spot : Spot) :
    walk.line false spot (cross last spot.segment (walk.lanes fun y => .live (feeds y).carry)) =
      some (feeds.lineup walk.layers spot, walk.lanes fun y => .live ((feeds.past spot) y).carry) := by
  refine line_of_steps fun y _ => ?_
  rw [← hlast y, Lane.crossed_live, Lane.step_live]
  rfl

def updates (walk : Walk) : Feeds → List Spot → List (Id .line × Lineup)
  | _, [] => []
  | feeds, spot :: rest =>
    walk.write spot.line.id (feeds.lineup walk.layers spot) ++ updates walk (feeds.past spot) rest

theorem last_past (feeds : Feeds) (spot : Spot) (y : Id .layer) :
    ((feeds.past spot) y).last = some spot.segment := rfl

@[simp]
theorem poll?_unset (walk : Walk) (visited : Nat) : walk.poll? .unset visited = some .unset := by
  rw [poll?]
  split <;> rfl

theorem run_cancelled (walk : Walk) (mode : Mode) (lanes : List Lane) (spot : Spot)
    (rest : List Spot) :
    walk.run mode (.setAfter 0) last lanes 0 (spot :: rest) = .error .cancelled := by
  rw [run, poll?, Nat.zero_mod]
  rfl

theorem token_of_stuck {mode : Mode} {lanes : List Lane} {visited : Nat} {spots : List Spot}
    {token : Token}
    (h : walk.run mode .unset last lanes visited spots = .ok (.stuck token)) : token = .unset := by
  induction spots generalizing last lanes visited with
  | nil => cases h
  | cons spot rest ih =>
    rw [run, poll?_unset] at h
    dsimp only at h
    split at h
    · cases h
    · split at h
      · exact (Outcome.stuck.inj (Except.ok.inj h)).symm
      · split at h
        · cases h
        · exact ih (Outcome.map_eq_stuck.mp h)

theorem run_of_check_error (mode : Mode) {spot : Spot} {fault : Fault}
    (hf : spot.line.check walk.layers = .error fault) (lanes : List Lane) (visited : Nat)
    (rest : List Spot) : walk.run mode .unset last lanes visited (spot :: rest) = .error fault := by
  rw [run, poll?_unset]
  simp only [hf]

theorem run_of_line (mode : Mode) (visited : Nat) {spot : Spot}
    (hcheck : spot.line.check walk.layers = .ok ()) {lanes next : List Lane} {lineup : Lineup}
    (hline : walk.line (mode = .suffix && 0 < visited) spot (cross last spot.segment lanes) =
      some (lineup, next)) (rest : List Spot) :
    walk.run mode .unset last lanes visited (spot :: rest) =
      if mode = .suffix && !next.isEmpty && next.all Lane.isSettled then
        .ok (.done ⟨walk.write spot.line.id lineup, visited + 1, !rest.isEmpty⟩)
      else
        (walk.run mode .unset (some spot.segment) next (visited + 1) rest).map <|
          Outcome.map fun pass =>
            { pass with writes := walk.write spot.line.id lineup ++ pass.writes } := by
  rw [run, poll?_unset]
  simp only [hcheck, hline]

theorem run_cons_done {mode : Mode} {lanes : List Lane} {visited : Nat} {spot : Spot}
    {rest : List Spot} {pass : Pass}
    (h : walk.run mode .unset last lanes visited (spot :: rest) = .ok (.done pass)) :
    spot.line.check walk.layers = .ok () ∧ ∃ lineup next after,
      walk.line (mode = .suffix && 0 < visited) spot (cross last spot.segment lanes) =
        some (lineup, next) ∧
      pass = { after with writes := walk.write spot.line.id lineup ++ after.writes } ∧
      (((mode = .suffix && !next.isEmpty && next.all Lane.isSettled) = true ∧
          after = ⟨[], visited + 1, !rest.isEmpty⟩) ∨
        walk.run mode .unset (some spot.segment) next (visited + 1) rest = .ok (.done after)) := by
  cases hcheck : spot.line.check walk.layers with
  | error fault =>
    rw [run_of_check_error mode hcheck] at h
    cases h
  | ok =>
    refine ⟨rfl, ?_⟩
    cases hline : walk.line (mode = .suffix && 0 < visited) spot (cross last spot.segment lanes) with
    | none =>
      rw [run, poll?_unset] at h
      simp only [hcheck, hline] at h
      cases h
    | some found =>
      obtain ⟨lineup, next⟩ := found
      rw [run_of_line mode visited hcheck hline rest] at h
      split at h
      · next hstop =>
        obtain rfl := Outcome.done.inj (Except.ok.inj h)
        refine ⟨lineup, next, ⟨[], visited + 1, !rest.isEmpty⟩, rfl, ?_, .inl ⟨hstop, rfl⟩⟩
        rw [List.append_nil]
      · obtain ⟨after, hrest, rfl⟩ := Outcome.map_eq_done.mp h
        exact ⟨lineup, next, after, rfl, rfl, .inr hrest⟩

/-- A walk is cancelled on its way, or goes as it would with a token that is never set. -/
theorem run_token (walk : Walk) (mode : Mode) (token : Token) (last : Option (Id .segment))
    (lanes : List Lane) (visited : Nat) (spots : List Spot) :
    walk.run mode token last lanes visited spots = .error .cancelled ∨
      ∃ left, walk.run mode token last lanes visited spots =
        (walk.run mode .unset last lanes visited spots).map (Outcome.leaving left) := by
  induction spots generalizing token last lanes visited with
  | nil => exact .inr ⟨token, rfl⟩
  | cons spot rest ih =>
    rw [run, run, poll?_unset]
    cases walk.poll? token visited with
    | none => exact .inl rfl
    | some token =>
      dsimp only
      cases spot.line.check walk.layers with
      | error fault => exact .inr ⟨token, rfl⟩
      | ok =>
        dsimp only
        cases walk.line (mode = .suffix && 0 < visited) spot (cross last spot.segment lanes) with
        | none => exact .inr ⟨token, rfl⟩
        | some found =>
          dsimp only
          split
          · exact .inr ⟨token, rfl⟩
          · rcases ih token (some spot.segment) found.2 (visited + 1) with hrest | ⟨left, hrest⟩
            · exact .inl (by rw [hrest]; rfl)
            · exact .inr ⟨left, by rw [hrest, Outcome.map_leaving]⟩

theorem run_runToEnd_ne_stuck (walk : Walk) {feeds : Feeds} (hlast : ∀ y, (feeds y).last = last)
    (visited : Nat) (spots : List Spot) (token : Token) :
    walk.run .runToEnd .unset last (walk.lanes fun y => .live (feeds y).carry) visited spots ≠
      .ok (.stuck token) := by
  induction spots generalizing feeds last visited with
  | nil => simp [run]
  | cons spot rest ih =>
    cases hcheck : spot.line.check walk.layers with
    | error fault => simp [run_of_check_error .runToEnd hcheck]
    | ok =>
      rw [run_of_line .runToEnd visited hcheck (walk.line_live hlast spot) rest]
      exact fun h => ih (last_past feeds spot) (visited + 1) (Outcome.map_eq_stuck.mp h)

theorem write_keys_sublist (walk : Walk) (id : Id .line) (lineup : Lineup) :
    ((walk.write id lineup).map (·.1)).Sublist [id] := by
  rw [write]
  split
  · exact List.nil_sublist [id]
  · exact .refl [id]

theorem run_writes {mode : Mode} {lanes : List Lane} {visited : Nat}
    {spots : List Spot} {pass : Pass}
    (h : walk.run mode .unset last lanes visited spots = .ok (.done pass)) :
    (pass.writes.map (·.1)).Sublist (spots.map (·.line.id)) ∧
      ∀ write ∈ pass.writes, walk.board.line? write.1 ≠ some write.2 := by
  have fresh (id : Id .line) (lineup : Lineup) :
      ∀ write ∈ walk.write id lineup, walk.board.line? write.1 ≠ some write.2 := by
    rw [Walk.write]
    split
    · exact fun _ hm => absurd hm List.not_mem_nil
    · next hne => exact List.forall_mem_singleton.mpr hne
  induction spots generalizing last lanes visited pass with
  | nil =>
    obtain rfl := Outcome.done.inj (Except.ok.inj h)
    exact ⟨.slnil, fun _ hm => absurd hm List.not_mem_nil⟩
  | cons spot rest ih =>
    obtain ⟨-, lineup, next, after, -, rfl, hafter⟩ := run_cons_done h
    have later : (after.writes.map (·.1)).Sublist (rest.map (·.line.id)) ∧
        ∀ write ∈ after.writes, walk.board.line? write.1 ≠ some write.2 := by
      rcases hafter with ⟨-, rfl⟩ | hafter
      · exact ⟨List.nil_sublist _, fun _ hm => absurd hm List.not_mem_nil⟩
      · exact ih hafter
    refine ⟨?_, List.forall_mem_append.mpr ⟨fresh spot.line.id lineup, later.2⟩⟩
    rw [List.map_append]
    exact (walk.write_keys_sublist spot.line.id lineup).append later.1

/-- A walk to the end checks every line and finds on each what comes of the feeds. -/
theorem run_runToEnd (walk : Walk) (hlast : ∀ y, (feeds y).last = last)
    {spots : List Spot} (on : ∀ y ∈ walk.layers, OnTrack walk.board y (feeds y) spots (flow y))
    (visited : Nat) :
    walk.run .runToEnd .unset last (walk.lanes flow) visited spots =
      (spots.forM fun spot => spot.line.check walk.layers).map fun _ =>
        .done ⟨walk.updates feeds spots, visited + spots.length, false⟩ := by
  induction spots generalizing feeds flow last visited with
  | nil => rfl
  | cons spot rest ih =>
    cases hcheck : spot.line.check walk.layers with
    | error fault =>
      rw [run_of_check_error .runToEnd hcheck, List.forM, hcheck]
      rfl
    | ok =>
      obtain ⟨next, hline, hon⟩ := line_onTrack hlast on fun h => absurd h Bool.false_ne_true
      rw [run_of_line .runToEnd visited hcheck hline rest]
      refine (if_neg Bool.false_ne_true).trans ?_
      rw [ih (last_past feeds spot) hon (visited + 1), List.forM, hcheck]
      change _ = Except.map _ (rest.forM _)
      cases rest.forM fun spot => spot.line.check walk.layers with
      | error fault => rfl
      | ok =>
        change Except.ok (Outcome.done (Pass.mk _ (visited + 1 + rest.length) false)) = _
        rw [Nat.add_assoc, Nat.add_comm 1]
        rfl

theorem agrees_of_all_settled {next : Id .layer → Flow} {spots : List Spot}
    (on : ∀ y ∈ walk.layers, OnTrack walk.board y (feeds y) spots (next y))
    (h : (walk.lanes next).all Lane.isSettled = true) :
    ∀ y ∈ walk.layers, walk.board.Agrees y (feeds y) spots := by
  intro y hy
  have hsettled := List.all_eq_true.mp h ⟨y, next y⟩ (List.mem_map_of_mem hy)
  have hflow : next y = .settled := of_decide_eq_true hsettled
  rcases on y hy with hlive | ⟨-, agrees⟩
  · rw [hflow] at hlive
    exact nomatch hlive
  · exact agrees

/-- A walk that may settle finds on each line what comes of the feeds, and leaves out only lines on
which the board agrees with them. -/
theorem run_suffix (walk : Walk)
    (hlast : ∀ y, (feeds y).last = last)
    {spots : List Spot} (on : ∀ y ∈ walk.layers, OnTrack walk.board y (feeds y) spots (flow y))
    (visited : Nat) (trust : walk.board.Trusts walk.layers (decide (0 < visited)) feeds spots)
    (checks : ∀ spot ∈ spots, spot.line.check walk.layers = .ok ()) :
    ∃ walked left, spots = walked ++ left ∧ (walked = [] → left = []) ∧
      walk.run .suffix .unset last (walk.lanes flow) visited spots =
        .ok (.done ⟨walk.updates feeds walked, visited + walked.length, !left.isEmpty⟩) ∧
      ∀ y ∈ walk.layers, walk.board.Agrees y ((feeds.through walked) y) left := by
  -- No lane may settle on the first line, so the trust moves along with the number of lines visited.
  induction spots generalizing feeds flow last visited with
  | nil => exact ⟨[], [], rfl, fun _ => rfl, rfl, fun _ _ => trivial⟩
  | cons spot rest ih =>
    obtain ⟨next, hline, hon⟩ := line_onTrack hlast on trust.1
    rw [run_of_line .suffix visited (checks spot List.mem_cons_self) hline rest]
    split
    · next hstop =>
      rw [Bool.and_eq_true] at hstop
      refine ⟨[spot], rest, rfl, fun h => absurd h (List.cons_ne_nil spot []), ?_,
        agrees_of_all_settled hon hstop.2⟩
      rw [updates, updates, List.append_nil]
      rfl
    · have trusted : walk.board.Trusts walk.layers (decide (0 < visited + 1)) (feeds.past spot) rest :=
        trust.2
      obtain ⟨walked, left, rfl, -, hpass, agrees⟩ := ih (last_past feeds spot) hon (visited + 1) trusted
        fun s hs => checks s (List.mem_cons_of_mem spot hs)
      refine ⟨spot :: walked, left, rfl, fun h => absurd h (List.cons_ne_nil spot walked), ?_, agrees⟩
      rw [hpass, List.length_cons, Nat.add_assoc, Nat.add_comm 1]
      rfl

theorem updates_keys_sublist (walk : Walk) (feeds : Feeds) (spots : List Spot) :
    ((walk.updates feeds spots).map (·.1)).Sublist (spots.map (·.line.id)) := by
  induction spots generalizing feeds with
  | nil => exact .slnil
  | cons spot rest ih =>
    rw [updates, List.map_append]
    exact (walk.write_keys_sublist spot.line.id _).append (ih (feeds.past spot))

theorem line?_putAll_write {board : Board} {id : Id .line}
    (h : board.line? id = walk.board.line? id) (lineup : Lineup) (id' : Id .line) :
    (board.putAll (walk.write id lineup)).line? id' =
      if id = id' then some lineup else board.line? id' := by
  rw [write]
  split
  · next hsame =>
    split
    · next hid => rw [← hid, ← hsame]; exact h
    · rfl
  · exact Board.line?_put board id id' lineup

theorem shows_putAll_updates {board : Board} {spots : List Spot}
    (hn : (spots.map (·.line.id)).Nodup)
    (h : ∀ spot ∈ spots, board.line? spot.line.id = walk.board.line? spot.line.id) :
    (board.putAll (walk.updates feeds spots)).Shows walk.layers feeds spots := by
  induction spots generalizing board feeds with
  | nil => trivial
  | cons spot rest ih =>
    obtain ⟨hspot, hrest⟩ := List.nodup_cons.mp hn
    have hsplit : board.putAll (walk.updates feeds (spot :: rest)) =
        (board.putAll (walk.write spot.line.id (feeds.lineup walk.layers spot))).putAll
          (walk.updates (feeds.past spot) rest) := List.foldl_append
    have hwrite := line?_putAll_write (h spot List.mem_cons_self) (feeds.lineup walk.layers spot)
    rw [hsplit]
    constructor
    · rw [Board.line?_putAll_of_not_mem, hwrite, if_pos rfl]
      exact fun hm => hspot ((walk.updates_keys_sublist (feeds.past spot) rest).subset hm)
    · refine ih hrest fun s hs => ?_
      have hne : spot.line.id ≠ s.line.id := fun heq =>
        hspot (List.mem_map.mpr ⟨s, hs, heq.symm⟩)
      rw [hwrite, if_neg hne]
      exact h s (List.mem_cons_of_mem spot hs)

end Walk

end OnAir
