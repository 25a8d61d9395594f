import OnAir.Fault
import OnAir.IdMap
import OnAir.Rundown.Basic

set_option autoImplicit false

namespace OnAir

/-- A line with the segment that holds it and its index in the whole rundown. -/
structure Position where
  index : Nat
  segment : Segment
  line : Line
  deriving DecidableEq, Repr

def Position.spot (position : Position) : Spot := ⟨position.segment.id, position.line⟩

/-- All lines of a rundown in one sequence. Two tables tell the index of a line, and an item with the
index of its line. -/
structure Register where
  positions : List Position
  lines : IdMap .line Nat
  items : IdMap .item (Nat × Item)
  deriving DecidableEq

def IdMap.enter {kind : Kind} {ν : Type} (m : IdMap kind ν) (id : Id kind) (value : ν) :
    Except Fault (IdMap kind ν) :=
  if (m.get? id).isSome then .error (.duplicate id.name) else .ok (m.insert id value)

namespace Register

def empty : Register := ⟨[], .empty, .empty⟩

def addLine (segment : Segment) (register : Register) (line : Line) : Except Fault Register := do
  let index := register.positions.length
  let lines ← register.lines.enter line.id index
  let items ← line.items.foldlM (fun items item => items.enter item.id (index, item)) register.items
  return ⟨register.positions ++ [⟨index, segment, line⟩], lines, items⟩

/-- Enters a segment among those that were there before, and its lines. -/
def addSegment (state : IdMap .segment Unit × Register) (segment : Segment) :
    Except Fault (IdMap .segment Unit × Register) := do
  let segments ← state.1.enter segment.id ()
  let register ← segment.lines.foldlM (addLine segment) state.2
  return (segments, register)

def size (register : Register) : Nat := register.positions.length

def position? (register : Register) (index : Nat) : Option Position := register.positions[index]?

def since (register : Register) (index : Nat) : List Position := register.positions.drop index

def lineIds (register : Register) : List (Id .line) := register.positions.map (·.line.id)

def index? (register : Register) (id : Id .line) : Option Nat := register.lines.get? id

def item? (register : Register) (id : Id .item) : Option (Position × Item) :=
  (register.items.get? id).bind fun (index, item) => (register.position? index).map (·, item)

end Register

/-- Reads a rundown into a register, or names the identifier that repeats. -/
def Rundown.register (rundown : Rundown) : Except Fault Register := do
  let _ ← rundown.layers.foldlM (fun layers layer => layers.enter layer.id ())
    (.empty : IdMap .layer Unit)
  let (_, register) ← rundown.segments.foldlM Register.addSegment (.empty, .empty)
  return register

end OnAir
