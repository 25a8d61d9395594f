import OnAir.Proofs.Feed
import OnAir.Publisher

set_option autoImplicit false

namespace OnAir

theorem IdMap.get?_insertAll_map {kind : Kind} {ν : Type} (m : IdMap kind ν) (keys : List (Id kind))
    (f : Id kind → ν) (key : Id kind) :
    (m.insertAll (keys.map fun k => (k, f k))).get? key =
      if key ∈ keys then some (f key) else m.get? key := by
  induction keys generalizing m with
  | nil => simp [insertAll]
  | cons k rest ih =>
    rw [List.map_cons]
    change ((m.insert k (f k)).insertAll _).get? key = _
    rw [ih, get?_insert]
    by_cases hrest : key ∈ rest
    · rw [if_pos hrest, if_pos (List.mem_cons_of_mem k hrest)]
    · by_cases hk : k = key
      · subst hk
        rw [if_neg hrest, if_pos rfl, if_pos List.mem_cons_self]
      · rw [if_neg hrest, if_neg hk, if_neg fun h => ?_]
        rcases List.mem_cons.mp h with h | h
        · exact hk h.symm
        · exact hrest h

abbrev Feeds : Type := Id .layer → Feed

namespace Feeds

def start : Feeds := fun _ => .start

def lineup (feeds : Feeds) (layers : List (Id .layer)) (spot : Spot) : Lineup :=
  .ofList (layers.map fun layer => (layer, (feeds layer).entry layer spot))

def past (feeds : Feeds) (spot : Spot) : Feeds := fun layer => (feeds layer).past layer spot

def through (feeds : Feeds) (spots : List Spot) : Feeds := fun layer =>
  (feeds layer).through layer spots

theorem through_append (feeds : Feeds) (xs ys : List Spot) :
    feeds.through (xs ++ ys) = (feeds.through xs).through ys :=
  funext fun layer => (feeds layer).through_append layer xs ys

theorem get?_lineup (feeds : Feeds) (layers : List (Id .layer)) (spot : Spot) (layer : Id .layer) :
    (feeds.lineup layers spot).get? layer =
      if layer ∈ layers then some ((feeds layer).entry layer spot) else none := by
  rw [lineup, IdMap.ofList, IdMap.get?_insertAll_map]
  rfl

theorem lineup_congr {layers layers' : List (Id .layer)} (h : ∀ y, y ∈ layers ↔ y ∈ layers')
    {feeds feeds' : Feeds} {spot : Spot}
    (he : ∀ y ∈ layers, (feeds y).entry y spot = (feeds' y).entry y spot) :
    feeds.lineup layers spot = feeds'.lineup layers' spot := by
  refine IdMap.ext fun y => ?_
  rw [get?_lineup, get?_lineup]
  by_cases hy : y ∈ layers
  · rw [if_pos hy, if_pos ((h y).mp hy), he y hy]
  · rw [if_neg hy, if_neg fun hy' => hy ((h y).mpr hy')]

def InScope (feeds : Feeds) : Prop := ∀ layer, (feeds layer).InScope

theorem start_inScope : start.InScope := fun _ => Feed.start_inScope

theorem InScope.past {feeds : Feeds} (h : feeds.InScope) (spot : Spot) : (feeds.past spot).InScope :=
  fun layer => (h layer).past layer spot

theorem InScope.through {feeds : Feeds} (h : feeds.InScope) (spots : List Spot) :
    (feeds.through spots).InScope :=
  fun layer => (h layer).through layer spots

end Feeds

namespace Board

def entry? (board : Board) (id : Id .line) (layer : Id .layer) : Option (Option Airing) :=
  (board.line? id).bind (IdMap.get? · layer)

/-- The board shows on each spot what comes of the feeds there. -/
def Shows (board : Board) (layers : List (Id .layer)) : Feeds → List Spot → Prop
  | _, [] => True
  | feeds, spot :: rest =>
    board.line? spot.line.id = some (feeds.lineup layers spot) ∧
      Shows board layers (feeds.past spot) rest

def Agrees (board : Board) (layer : Id .layer) : Feed → List Spot → Prop
  | _, [] => True
  | feed, spot :: rest =>
    board.entry? spot.line.id layer = some (feed.entry layer spot) ∧
      Agrees board layer (feed.past layer spot) rest

variable {board : Board} {layers : List (Id .layer)} {feeds : Feeds}

theorem shows_append {xs ys : List Spot} :
    board.Shows layers feeds (xs ++ ys) ↔
      board.Shows layers feeds xs ∧ board.Shows layers (feeds.through xs) ys := by
  induction xs generalizing feeds with
  | nil => exact ⟨fun h => ⟨trivial, h⟩, fun h => h.2⟩
  | cons spot xs ih =>
    rw [List.cons_append, Shows, Shows, ih, and_assoc]
    rfl

theorem shows_congr {board' : Board} {spots : List Spot}
    (h : ∀ spot ∈ spots, board.line? spot.line.id = board'.line? spot.line.id) :
    board.Shows layers feeds spots ↔ board'.Shows layers feeds spots := by
  induction spots generalizing feeds with
  | nil => exact Iff.rfl
  | cons spot rest ih =>
    rw [Shows, Shows, h spot List.mem_cons_self,
      ih fun s hs => h s (List.mem_cons_of_mem spot hs)]

theorem Shows.unique {board' : Board} {spots : List Spot} (h : board.Shows layers feeds spots)
    (h' : board'.Shows layers feeds spots) :
    ∀ spot ∈ spots, board.line? spot.line.id = board'.line? spot.line.id := by
  induction spots generalizing feeds with
  | nil => exact fun _ hs => absurd hs List.not_mem_nil
  | cons spot rest ih =>
    intro s hs
    rcases List.mem_cons.mp hs with rfl | hs
    · exact h.1.trans h'.1.symm
    · exact ih h.2 h'.2 s hs

theorem Shows.layers_congr {layers' : List (Id .layer)} (hl : ∀ y, y ∈ layers ↔ y ∈ layers')
    {spots : List Spot} (h : board.Shows layers feeds spots) : board.Shows layers' feeds spots := by
  induction spots generalizing feeds with
  | nil => trivial
  | cons spot rest ih =>
    exact ⟨h.1.trans (congrArg some (Feeds.lineup_congr hl fun _ _ => rfl)), ih h.2⟩

theorem Shows.entry? {spot : Spot} {rest : List Spot} (h : board.Shows layers feeds (spot :: rest))
    {layer : Id .layer} (hl : layer ∈ layers) :
    board.entry? spot.line.id layer = some ((feeds layer).entry layer spot) := by
  rw [Board.entry?, h.1, Option.bind_some, Feeds.get?_lineup, if_pos hl]

/-- Where two feeds show the same on one line, a board that agrees with one of them from there on
agrees with the other. -/
theorem agrees_of_entry_eq {layer : Id .layer} {feed feed' : Feed} (hf : feed.InScope)
    (hf' : feed'.InScope) {spot : Spot} (he : feed.entry layer spot = feed'.entry layer spot)
    {rest : List Spot} (h : board.Agrees layer (feed'.past layer spot) rest) :
    board.Agrees layer (feed.past layer spot) rest := by
  -- What a feed in scope gives on a line follows from what it gave on the line before.
  induction rest generalizing feed feed' spot with
  | nil => trivial
  | cons next rest ih =>
    have hnext : (feed.past layer spot).entry layer next =
        (feed'.past layer spot).entry layer next := by
      rw [Feed.entry_past hf, Feed.entry_past hf', he]
    exact ⟨h.1.trans (congrArg some hnext.symm), ih (hf.past layer spot) (hf'.past layer spot) hnext h.2⟩

theorem Shows.agrees {spots : List Spot} (h : board.Shows layers feeds spots) {layer : Id .layer}
    (hl : layer ∈ layers) : board.Agrees layer (feeds layer) spots := by
  induction spots generalizing feeds with
  | nil => trivial
  | cons spot rest ih => exact ⟨h.entry? hl, ih h.2⟩

theorem Shows.of_agrees {feeds' : Feeds} {spots : List Spot} (h : board.Shows layers feeds' spots)
    (ha : ∀ y ∈ layers, board.Agrees y (feeds y) spots) : board.Shows layers feeds spots := by
  induction spots generalizing feeds feeds' with
  | nil => trivial
  | cons spot rest ih =>
    refine ⟨h.1.trans (congrArg some ?_), ih h.2 fun y hy => (ha y hy).2⟩
    refine Feeds.lineup_congr (fun _ => Iff.rfl) fun y hy => ?_
    exact Option.some.inj ((h.entry? hy).symm.trans (ha y hy).1)

theorem line?_putAll_of_not_mem {writes : List (Id .line × Lineup)} {id : Id .line}
    (h : id ∉ writes.map (·.1)) : (board.putAll writes).line? id = board.line? id := by
  induction writes generalizing board with
  | nil => rfl
  | cons write rest ih =>
    rw [List.map_cons, List.mem_cons, not_or] at h
    change ((board.put write.1 write.2).putAll rest).line? id = _
    rw [ih h.2, line?_put, if_neg fun heq => h.1 heq.symm]

theorem line?_putAll_congr {board' : Board} {id : Id .line} (h : board.line? id = board'.line? id)
    (writes : List (Id .line × Lineup)) :
    (board.putAll writes).line? id = (board'.putAll writes).line? id := by
  induction writes generalizing board board' with
  | nil => exact h
  | cons write rest ih => exact ih (by rw [line?_put, line?_put, h])

theorem line?_putAll_of_mem {writes : List (Id .line × Lineup)} {id : Id .line} {lineup : Lineup}
    (hn : (writes.map (·.1)).Nodup) (h : (id, lineup) ∈ writes) :
    (board.putAll writes).line? id = some lineup := by
  induction writes generalizing board with
  | nil => exact absurd h List.not_mem_nil
  | cons write rest ih =>
    obtain ⟨hnot, hrest⟩ := List.nodup_cons.mp hn
    rcases List.mem_cons.mp h with rfl | h
    · exact (line?_putAll_of_not_mem hnot).trans ((line?_put ..).trans (if_pos rfl))
    · exact ih hrest h

theorem line?_forget (board : Board) (ids : List (Id .line)) (id : Id .line) :
    (board.forget ids).2.line? id = if id ∈ ids then none else board.line? id := by
  induction ids generalizing board with
  | nil => simp [forget]
  | cons first rest ih =>
    change ((board.drop first).forget rest).2.line? id = _
    rw [ih, line?_drop]
    by_cases hrest : id ∈ rest
    · rw [if_pos hrest, if_pos (List.mem_cons_of_mem first hrest)]
    · by_cases hf : id = first
      · rw [if_neg hrest, if_pos hf, if_pos (hf ▸ List.mem_cons_self)]
      · rw [if_neg hrest, if_neg hf, if_neg fun h => (List.mem_cons.mp h).elim hf hrest]

theorem line?_of_forget_eq_zero {ids : List (Id .line)} (h : (board.forget ids).1 = 0)
    (id : Id .line) : (board.forget ids).2.line? id = board.line? id := by
  induction ids generalizing board with
  | nil => rfl
  | cons first rest ih =>
    change (if (board.line? first).isSome then _ + 1 else _) = 0 at h
    split at h
    · exact absurd h (Nat.succ_ne_zero _)
    · next hf =>
      rw [Option.not_isSome_iff_eq_none] at hf
      change ((board.drop first).forget rest).2.line? id = _
      rw [ih h, line?_drop]
      split
      · next heq => rw [heq, hf]
      · rfl

theorem line?_of_keep_size_eq {pass : Id .line → Bool}
    (h : (board.keep pass).lines.size = board.lines.size) (id : Id .line) :
    (board.keep pass).line? id = board.line? id := by
  have hall := List.length_filter_eq_length_iff.mp h
  have heq : board.lines.filter pass = board.lines :=
    IdMap.eq_of_entries (List.filter_eq_self.mpr hall)
  exact congrArg (IdMap.get? · id) heq

theorem size_keep_le (board : Board) (pass : Id .line → Bool) :
    (board.keep pass).lines.size ≤ board.lines.size :=
  List.length_filter_le _ _

end Board

end OnAir
