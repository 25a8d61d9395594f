import OnAir.Rundown.Change
import OnAir.RunningOrder
import OnAir.Walk

set_option autoImplicit false

namespace OnAir

inductive Edit where
  | setItemDuration (item : Id .item) (duration : Int64)
  | setItemReach (item : Id .item) (reach : Reach)
  | setItemContent (item : Id .item) (content : Content)
  | insertItem (line : Id .line) (item : Item)
  | removeItem (item : Id .item)
  | setLineDuration (line : Id .line) (duration : UInt64)
  | insertLine (segment : Id .segment) (index : UInt64) (line : Line)
  | removeLine (line : Id .line)
  | moveLine (line : Id .line) (segment : Id .segment) (index : UInt64)
  | recompute (start : Option (Id .line)) (runToEnd : Bool)
  deriving DecidableEq, Repr

/-- What the board needs after an edit. -/
inductive Upkeep where
  | recompute (start : Option (Id .line)) (mode : Mode) (removed : List (Id .line))
  /-- A last line went away: only its entries have to go. -/
  | forget (line : Id .line)
  deriving DecidableEq, Repr

namespace Upkeep

def suffix (line : Id .line) : Upkeep := .recompute (some line) .suffix []

def runToEnd (start : Option (Id .line)) : Upkeep := .recompute start .runToEnd []

end Upkeep

namespace Change

def onItem (id : Id .item) (check : Item → Except Fault Unit) (f : Item → Item) :
    Change (Id .line) := do
  if let some (_, item) := (← get).item? id then
    MonadExcept.ofExcept (check item)
  update (.notFound id.name) fun rundown => rundown.modifyItem? id f

def onLine (id : Id .line) (f : Line → Line) : Change Unit :=
  update (.notFound id.name) fun rundown => (rundown.modifyLine? id f).map ((), ·)

def locate (line : Id .line) (absent : Fault) : Change (RunningOrder × Nat) := do
  let order ← MonadExcept.ofExcept (← get).order
  match order.index? line with
  | some index => return (order, index)
  | none => throw absent

end Change

namespace Edit

def change : Edit → Change Upkeep
  | setItemDuration id duration => do
    let line ← Change.onItem id (fun item => item.reach.allow id duration)
      fun item => { item with duration }
    return .suffix line
  | setItemReach id reach => do
    let line ← Change.onItem id (fun item => reach.allow id item.duration)
      fun item => { item with reach }
    return .suffix line
  | setItemContent id content => do
    let line ← Change.onItem id (fun _ => .ok ()) fun item => { item with content }
    return .suffix line
  | insertItem line item => do
    MonadExcept.ofExcept item.sound
    if ((← get).item? item.id).isSome then
      throw (.duplicate item.id.name)
    Change.onLine line fun l => { l with items := l.items ++ [item] }
    return .suffix line
  | removeItem id => do
    let (line, _) ← Change.removeItem id
    return .suffix line
  | setLineDuration line duration => do
    Change.onLine line fun l => { l with duration }
    return .suffix line
  | insertLine segment index line => do
    MonadExcept.ofExcept (line.items.forM Item.sound)
    Change.insertLine segment index.toNat line
    return .runToEnd (some line.id)
  | removeLine line => do
    let (order, index) ← Change.locate line (.notFound line.name)
    let _ ← Change.removeLine line
    match order.spot? (index + 1) with
    | some next => return .recompute (some next.line.id) .runToEnd [line]
    | none => return .forget line
  | moveLine line segment index => do
    let (_, old) ← Change.locate line (.notFound line.name)
    Change.moveLine line segment index.toNat
    let (order, new) ← Change.locate line (.lostWhileMoving line)
    return .runToEnd ((order.spot? (min old new)).map (·.line.id))
  | recompute start runToEnd =>
    return .recompute start (if runToEnd then .runToEnd else .suffix) []

end Edit

end OnAir
