import OnAir.Register

set_option autoImplicit false

namespace OnAir

structure RunningOrder where
  spots : List Spot
  deriving DecidableEq, Repr

def Register.order (register : Register) : RunningOrder := ⟨register.positions.map Position.spot⟩

/-- The running order, or the identifier that repeats. -/
def Rundown.order (rundown : Rundown) : Except Fault RunningOrder :=
  rundown.register.map Register.order

namespace RunningOrder

def size (order : RunningOrder) : Nat := order.spots.length

def spot? (order : RunningOrder) (index : Nat) : Option Spot := order.spots[index]?

def since (order : RunningOrder) (index : Nat) : List Spot := order.spots.drop index

def lineIds (order : RunningOrder) : List (Id .line) := order.spots.map (·.line.id)

def index? (order : RunningOrder) (id : Id .line) : Option Nat :=
  order.spots.findIdx? fun spot => decide (spot.line.id = id)

def contains (order : RunningOrder) (id : Id .line) : Bool := (order.index? id).isSome

def item? (order : RunningOrder) (id : Id .item) : Option (Spot × Item) :=
  order.spots.findSome? fun spot => (spot.line.item? id).map (spot, ·)

end RunningOrder

end OnAir
