import OnAir.Walk

set_option autoImplicit false

/-!
A publisher keeps the board of one rundown and brings it up to date. A recompute starts at some
line, takes what went before from the board, and publishes all that it finds as one new version, or
nothing when it fails.
-/
namespace OnAir

structure Settings where
  /-- Lines walked between two looks at the token; zero counts as one. -/
  pollEvery : Nat
  /-- A walk over all lines drops the board's other lines. -/
  dropsOrphans : Bool
  deriving DecidableEq, Repr

def Settings.standard : Settings := ⟨16, true⟩

structure Report where
  start : Option (Id .line)
  mode : Mode
  visited : Nat
  changed : Nat
  early : Bool
  pruned : Nat
  version : UInt64
  deriving DecidableEq, Repr

def Board.forget (board : Board) : List (Id .line) → Nat × Board
  | [] => (0, board)
  | id :: rest =>
    let (count, left) := Board.forget (board.drop id) rest
    (if (board.line? id).isSome then count + 1 else count, left)

structure Publisher where
  settings : Settings
  board : Board

namespace Publisher

def fresh (settings : Settings) : Publisher := ⟨settings, .empty⟩

def startIndex (order : RunningOrder) : Option (Id .line) → Except Fault Nat
  | none => .ok 0
  | some id =>
    match order.index? id with
    | some index => .ok index
    | none => .error (.notFound id.name)

/-- Walks from a start; a settled lane that has no way on makes it walk again without settling. -/
def walkFrom (walk : Walk) (order : RunningOrder) (start : Nat) (lanes : List Lane) (mode : Mode)
    (token : Token) : Except Fault Pass :=
  let go (mode : Mode) (token : Token) :=
    walk.run mode token (order.segmentBefore? start) lanes 0 (order.since start)
  match go mode token with
  | .error fault => .error fault
  | .ok (.done pass) => .ok pass
  | .ok (.stuck token) =>
    match go .runToEnd token with
    | .error fault => .error fault
    | .ok (.done pass) => .ok pass
    | .ok (.stuck _) => .error .diverged

def walk (publisher : Publisher) (layers : List (Id .layer)) : Walk :=
  ⟨layers, publisher.board, max publisher.settings.pollEvery 1⟩

/-- Walks from an index, or over all lines when the board does not fit the line before it. The
answer has the index at which the walk started. -/
def pass (publisher : Publisher) (layers : List (Id .layer)) (order : RunningOrder) (index : Nat)
    (mode : Mode) (token : Token) : Except Fault (Nat × Pass) :=
  let walk := publisher.walk layers
  match order.lanesInto? layers publisher.board index with
  | some lanes => (walkFrom walk order index lanes mode token).map (index, ·)
  | none => (walkFrom walk order 0 (layers.map Lane.idle) .runToEnd token).map (0, ·)

/-- The board without the lines that a pass leaves behind, and how many those were: removed lines
that are not in the order, and, after a pass over all lines, all others that are not. -/
def prune (publisher : Publisher) (order : RunningOrder) (start : Nat) (pass : Pass)
    (removed : List (Id .line)) : Nat × Board :=
  let (gone, board) := publisher.board.forget (removed.filter fun id => !order.contains id)
  if start = 0 && !pass.early && publisher.settings.dropsOrphans then
    let kept := board.keep order.contains
    (gone + (board.lines.size - kept.lines.size), kept)
  else (gone, board)

def publish (publisher : Publisher) (order : RunningOrder) (mode : Mode) (start : Nat) (pass : Pass)
    (removed : List (Id .line)) : Report × Publisher :=
  let (pruned, board) := publisher.prune order start pass removed
  let next :=
    if pass.writes.length = 0 ∧ pruned = 0 then publisher.board
    else (board.putAll pass.writes).advance
  ({ start := (order.spot? start).map (·.line.id)
     mode
     visited := pass.visited
     changed := pass.writes.length
     early := pass.early
     pruned
     version := next.version }, { publisher with board := next })

/-- Brings the board up to date from a line on, and drops the removed lines in the same version. -/
def update (publisher : Publisher) (rundown : Rundown) (start : Option (Id .line)) (mode : Mode)
    (token : Token) (removed : List (Id .line)) : Except Fault Report × Publisher :=
  match rundown.order with
  | .error fault => (.error fault, publisher)
  | .ok order =>
    match startIndex order start with
    | .error fault => (.error fault, publisher)
    | .ok index =>
      match publisher.pass rundown.layerIds order index mode token with
      | .error fault => (.error fault, publisher)
      | .ok (start, pass) =>
        let (report, publisher) := publisher.publish order mode start pass removed
        (.ok report, publisher)

def recompute (publisher : Publisher) (rundown : Rundown) (start : Option (Id .line)) (mode : Mode)
    (token : Token) : Except Fault Report × Publisher :=
  publisher.update rundown start mode token []

def forget (publisher : Publisher) (ids : List (Id .line)) : Report × Publisher :=
  let (pruned, board) := publisher.board.forget ids
  let next := if pruned = 0 then publisher.board else board.advance
  ({ start := none, mode := .suffix, visited := 0, changed := 0, early := false, pruned,
     version := next.version }, { publisher with board := next })

end Publisher

end OnAir
