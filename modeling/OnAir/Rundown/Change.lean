import OnAir.Rundown.Basic

set_option autoImplicit false

/-!
Changes to a rundown. A change may fail, and what it did before it failed stays done: whoever needs
all or nothing keeps the rundown from before. Each change acts on the first match in running order.
-/
namespace OnAir

def changeFirst? {α β : Type} (f : α → Option (β × α)) : List α → Option (β × List α)
  | [] => none
  | x :: rest =>
    match f x with
    | some (b, y) => some (b, y :: rest)
    | none => (changeFirst? f rest).map fun r => (r.1, x :: r.2)

def modifyFirst? {α : Type} (p : α → Bool) (f : α → α) (l : List α) : Option (List α) :=
  (changeFirst? (fun x => if p x then some ((), f x) else none) l).map Prod.snd

def takeFirst? {α : Type} (p : α → Bool) (l : List α) : Option (α × List α) :=
  (l.find? p).map fun x => (x, l.eraseP p)

/-- Puts a line before the one at an index, or at the end when the index is past it. -/
def Segment.insertAt (segment : Segment) (index : Nat) (line : Line) : Segment :=
  { segment with lines := segment.lines.take index ++ line :: segment.lines.drop index }

namespace Rundown

def changeLines? {β : Type} (rundown : Rundown) (f : List Line → Option (β × List Line)) :
    Option (β × Rundown) :=
  (changeFirst? (fun segment =>
    (f segment.lines).map fun r => (r.1, { segment with lines := r.2 })) rundown.segments).map
    fun r => (r.1, { rundown with segments := r.2 })

def changeItems? {β : Type} (rundown : Rundown) (f : List Item → Option (β × List Item)) :
    Option ((Id .line × β) × Rundown) :=
  rundown.changeLines? <| changeFirst? fun line =>
    (f line.items).map fun r => ((line.id, r.1), { line with items := r.2 })

def modifyLine? (rundown : Rundown) (id : Id .line) (f : Line → Line) : Option Rundown :=
  (rundown.changeLines? fun lines =>
    (modifyFirst? (fun line => decide (line.id = id)) f lines).map ((), ·)).map Prod.snd

def modifyItem? (rundown : Rundown) (id : Id .item) (f : Item → Item) :
    Option (Id .line × Rundown) :=
  (rundown.changeItems? fun items =>
    (modifyFirst? (fun item => decide (item.id = id)) f items).map ((), ·)).map
    fun r => (r.1.1, r.2)

def modifySegment? (rundown : Rundown) (id : Id .segment) (f : Segment → Segment) :
    Option Rundown :=
  (modifyFirst? (fun segment => decide (segment.id = id)) f rundown.segments).map
    fun segments => { rundown with segments }

def takeLine? (rundown : Rundown) (id : Id .line) : Option (Line × Rundown) :=
  rundown.changeLines? (takeFirst? fun line => decide (line.id = id))

def takeItem? (rundown : Rundown) (id : Id .item) : Option ((Id .line × Item) × Rundown) :=
  rundown.changeItems? (takeFirst? fun item => decide (item.id = id))

end Rundown

abbrev Change (α : Type) : Type := ExceptT Fault (StateM Rundown) α

namespace Change

variable {α : Type}

def apply (change : Change α) (rundown : Rundown) : Except Fault α × Rundown :=
  change.run.run rundown

/-- Goes over to another rundown, or fails and stays with this one. -/
def update (fault : Fault) (f : Rundown → Option (α × Rundown)) : Change α := do
  match f (← get) with
  | some (answer, rundown) =>
    set rundown
    return answer
  | none => throw fault

def insertLine (segment : Id .segment) (index : Nat) (line : Line) : Change Unit := do
  if ((← get).line? line.id).isSome then
    throw (.duplicate line.id.name)
  update (.notFound segment.name) fun rundown =>
    (rundown.modifySegment? segment fun s => s.insertAt index line).map ((), ·)

def removeLine (id : Id .line) : Change Line :=
  update (.notFound id.name) fun rundown => rundown.takeLine? id

/-- Takes a line out and inserts it again; the index counts the lines that stay. -/
def moveLine (id : Id .line) (segment : Id .segment) (index : Nat) : Change Unit := do
  if ((← get).segment? segment).isNone then
    throw (.notFound segment.name)
  let line ← removeLine id
  insertLine segment index line

def removeItem (id : Id .item) : Change (Id .line × Item) :=
  update (.notFound id.name) fun rundown => rundown.takeItem? id

theorem apply_pure (a : α) (rundown : Rundown) :
    (pure a : Change α).apply rundown = (.ok a, rundown) := rfl

theorem apply_throw (fault : Fault) (rundown : Rundown) :
    (throw fault : Change α).apply rundown = (.error fault, rundown) := rfl

theorem apply_bind {β : Type} (c : Change α) (f : α → Change β) (rundown : Rundown) :
    (c >>= f).apply rundown =
      match c.apply rundown with
      | (.ok a, r) => (f a).apply r
      | (.error fault, r) => (.error fault, r) := by
  unfold apply
  rw [ExceptT.run_bind, StateT.run_bind]
  change (match c.run.run rundown with | (a, r) => _) = _
  cases c.run.run rundown with
  | mk answer r => cases answer <;> rfl

theorem apply_update (fault : Fault) (f : Rundown → Option (α × Rundown)) (rundown : Rundown) :
    (update fault f).apply rundown =
      match f rundown with
      | some (answer, changed) => (.ok answer, changed)
      | none => (.error fault, rundown) := by
  show (match f rundown with | some (answer, changed) => _ | none => _ : Change α).apply rundown = _
  cases f rundown with
  | none => rfl
  | some r => rfl

end Change

end OnAir
