import OnAir.Board
import OnAir.Rundown.Basic

set_option autoImplicit false

/-!
Lanes: one source layer on its way through the running order. A live lane knows the item, if any,
that goes on into the next line; a settled lane repeats what the board already shows.
-/
namespace OnAir

structure Carry where
  item : Id .item
  line : Id .line
  segment : Id .segment
  reach : Reach
  elapsed : UInt64
  deriving DecidableEq, Repr

namespace Carry

def start (item : Item) (spot : Spot) : Carry where
  item := item.id
  line := spot.line.id
  segment := spot.segment
  reach := item.reach
  elapsed := spot.line.duration

def reaches (carry : Carry) (segment : Id .segment) : Bool :=
  carry.reach.crosses || decide (carry.segment = segment)

def airing (carry : Carry) : Airing where
  origin := carry.item
  originLine := carry.line
  reach := carry.reach
  continued := true
  elapsed := carry.elapsed
  duration := none

def past (carry : Carry) (duration : UInt64) : Carry :=
  { carry with elapsed := addTime carry.elapsed duration }

end Carry

inductive Flow where
  | live (carry : Option Carry)
  | settled
  deriving DecidableEq, Repr

structure Lane where
  layer : Id .layer
  flow : Flow
  deriving DecidableEq, Repr

namespace Lane

def idle (layer : Id .layer) : Lane := ⟨layer, .live none⟩

def isSettled (lane : Lane) : Bool := lane.flow = .settled

/-- Crossing into a segment drops an item whose reach ends with its own segment. -/
def enter (segment : Id .segment) (lane : Lane) : Lane :=
  match lane.flow with
  | .live carry => { lane with flow := .live (carry.filter (Carry.reaches · segment)) }
  | .settled => lane

/-- What a layer shows on a line, and what it carries past it: an item declared there wins over
what comes from earlier lines. -/
def show? (layer : Id .layer) (carry : Option Carry) (spot : Spot) :
    Option Airing × Option Carry :=
  match spot.line.declared? layer with
  | some item =>
    (some (.declared item spot.line.id), if item.reach.lasts then some (.start item spot) else none)
  | none => (carry.map Carry.airing, carry.map (Carry.past · spot.line.duration))

def starts (layer : Id .layer) (line : Line) : Bool :=
  (line.declared? layer).any (·.reach.lasts)

/-- Takes a lane through one line, given what the board shows there. Where settling is allowed, a
live lane settles when it shows what the board shows and no item that lasts starts. A settled lane
has no way on where the board has no entry. -/
def step (settling : Bool) (spot : Spot) (published : Option Lineup) (lane : Lane) :
    Option (Option Airing × Lane) :=
  match lane.flow with
  | .settled => (published.bind (IdMap.get? · lane.layer)).map (·, lane)
  | .live carry =>
    let (entry, next) := show? lane.layer carry spot
    let settles := settling && !starts lane.layer spot.line &&
      published.bind (IdMap.get? · lane.layer) = some entry
    some (entry, { lane with flow := if settles then .settled else .live next })

theorem step_layer {settling : Bool} {spot : Spot} {published : Option Lineup} {lane : Lane}
    {r : Option Airing × Lane} (h : lane.step settling spot published = some r) :
    r.2.layer = lane.layer := by
  unfold step at h
  split at h
  · obtain ⟨_, _, rfl⟩ := Option.map_eq_some_iff.mp h
    rfl
  · cases h
    rfl

end Lane

end OnAir
