import OnAir.Lane
import OnAir.RunningOrder

set_option autoImplicit false

namespace OnAir

inductive Mode where
  | suffix
  | runToEnd
  deriving DecidableEq, Repr

structure Pass where
  /-- The lines on which the board shows something else, with what it has to show. -/
  writes : List (Id .line × Lineup)
  visited : Nat
  early : Bool
  deriving DecidableEq

/-- A flag that the caller may set to cancel a call, also while the call runs. Once found set, it is
found so for good, so all there is to tell is how often a call looks at it before. -/
inductive Token where
  | unset
  | setAfter (looks : Nat)
  deriving DecidableEq, Repr

def Token.look? : Token → Option Token
  | .unset => some .unset
  | .setAfter 0 => none
  | .setAfter (looks + 1) => some (.setAfter looks)

/-- The token of a call that is cancelled beforehand, or never. -/
instance : Coe Bool Token := ⟨fun cancelled => if cancelled then .setAfter 0 else .unset⟩

/-- How a walk ends that is not broken off. -/
inductive Outcome where
  | done (pass : Pass)
  /-- A settled lane has no way on; the token is the one left for walking again. -/
  | stuck (token : Token)
  deriving DecidableEq

def Outcome.map (f : Pass → Pass) : Outcome → Outcome
  | .done pass => .done (f pass)
  | .stuck token => .stuck token

structure Walk where
  layers : List (Id .layer)
  board : Board
  /-- Lines between two looks at the token. -/
  pollEvery : Nat

namespace Walk

def poll? (walk : Walk) (token : Token) (visited : Nat) : Option Token :=
  if visited % walk.pollEvery = 0 then token.look? else some token

def cross (last : Option (Id .segment)) (segment : Id .segment) (lanes : List Lane) : List Lane :=
  if last = some segment then lanes else lanes.map (Lane.enter segment)

/-- Takes every lane through one line; `none` when a settled lane has no way on. -/
def line (walk : Walk) (settling : Bool) (spot : Spot) (lanes : List Lane) :
    Option (Lineup × List Lane) :=
  (lanes.mapM (Lane.step settling spot (walk.board.line? spot.line.id))).map fun steps =>
    (.ofList (steps.map fun s => (s.2.layer, s.1)), steps.map Prod.snd)

def write (walk : Walk) (id : Id .line) (lineup : Lineup) : List (Id .line × Lineup) :=
  if walk.board.line? id = some lineup then [] else [(id, lineup)]

/-- Walks the given spots. The walk knows the segment that the line before was in, its lanes, and
how many lines it has visited. A lane may settle from the second line on. -/
def run (walk : Walk) (mode : Mode) (token : Token) (last : Option (Id .segment))
    (lanes : List Lane) (visited : Nat) : List Spot → Except Fault Outcome
  | [] => .ok (.done ⟨[], visited, false⟩)
  | spot :: rest =>
    match walk.poll? token visited with
    | none => .error .cancelled
    | some token =>
      match spot.line.check walk.layers with
      | .error fault => .error fault
      | .ok () =>
        match walk.line (mode = .suffix && 0 < visited) spot (cross last spot.segment lanes) with
        | none => .ok (.stuck token)
        | some (lineup, lanes) =>
          if mode = .suffix && !lanes.isEmpty && lanes.all Lane.isSettled then
            .ok (.done ⟨walk.write spot.line.id lineup, visited + 1, !rest.isEmpty⟩)
          else
            (run walk mode token (some spot.segment) lanes (visited + 1) rest).map <|
              Outcome.map fun pass =>
                { pass with writes := walk.write spot.line.id lineup ++ pass.writes }

end Walk

namespace RunningOrder

/-- What a layer carries past a spot, told from what the spot's lineup shows there. The answer is
`none` when the lineup does not fit the rundown: no entry for the layer, or one whose origin is
gone, stands elsewhere, or reaches otherwise. -/
def carryPast? (order : RunningOrder) (spot : Spot) (lineup : Lineup) (layer : Id .layer) :
    Option (Option Carry) :=
  match lineup.get? layer with
  | none => none
  | some none => some none
  | some (some airing) =>
    match order.item? airing.origin with
    | none => none
    | some (origin, item) =>
      if item.layer = layer ∧ item.reach = airing.reach ∧ origin.line.id = airing.originLine then
        some (if item.reach.lasts then
          some {
            item := item.id
            line := origin.line.id
            segment := origin.segment
            reach := item.reach
            elapsed := addTime airing.elapsed spot.line.duration }
        else none)
      else none

def lanesInto? (order : RunningOrder) (layers : List (Id .layer)) (board : Board) :
    Nat → Option (List Lane)
  | 0 => some (layers.map Lane.idle)
  | before + 1 =>
    match order.spot? before with
    | none => none
    | some spot =>
      match board.line? spot.line.id with
      | none => none
      | some lineup =>
        layers.mapM fun layer => (order.carryPast? spot lineup layer).map fun carry =>
          ⟨layer, .live carry⟩

def segmentBefore? (order : RunningOrder) : Nat → Option (Id .segment)
  | 0 => none
  | before + 1 => (order.spot? before).map Spot.segment

end RunningOrder

end OnAir
