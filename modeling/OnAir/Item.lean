import OnAir.Fault

set_option autoImplicit false

namespace OnAir

inductive Reach where
  | ownLine
  /-- Until the next item on its layer. -/
  | nextItem
  | segmentEnd
  /-- Across segments, until overridden. -/
  | rundownEnd
  deriving DecidableEq, Repr

def Reach.lasts (reach : Reach) : Bool := reach != .ownLine

def Reach.crosses : Reach → Bool
  | .nextItem | .rundownEnd => true
  | .ownLine | .segmentEnd => false

/-- What an item shows. Nothing here looks inside it. -/
inductive Content where
  | empty
  | reference (target : String)
  | inline (bytes : List UInt8)
  deriving DecidableEq, Repr

structure Item where
  id : Id .item
  layer : Id .layer
  /-- Milliseconds; below zero only where the item ends with its own line. -/
  duration : Int64
  reach : Reach
  content : Content
  deriving DecidableEq, Repr

def Reach.allow (reach : Reach) (id : Id .item) (duration : Int64) : Except Fault Unit :=
  if reach.lasts && duration < 0 then .error (.negativeDuration id duration) else .ok ()

namespace Item

def sound (item : Item) : Except Fault Unit := item.reach.allow item.id item.duration

def check (layers : List (Id .layer)) (item : Item) : Except Fault Unit :=
  if item.layer ∈ layers then item.sound else .error (.notFound item.layer.name)

end Item

end OnAir
