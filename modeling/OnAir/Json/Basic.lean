import OnAir.Json.Token

set_option autoImplicit false

/-!
JSON values, and how their tokens make them up. The tokens are taken one by one, with the containers
that are still open on a stack, so that no depth of nesting is too much.
-/
namespace OnAir

/-- A JSON value. Members stand as they are written, and a name may repeat. -/
inductive Json where
  | null
  | bool (value : Bool)
  | number (value : Json.Number)
  | text (value : Option String)
  | array (elements : List Json)
  | object (members : List (Option String × Json))
  deriving Repr

namespace Json

def ofInt (i : Int) : Json := number ⟨decide (i < 0), i.natAbs, none, none⟩

def ofNat (n : Nat) : Json := number ⟨false, n, none, none⟩

def ofString (s : String) : Json := text (some s)

def record (members : List (String × Json)) : Json :=
  object (members.map fun m => (some m.1, m.2))

/-- A container that is still open, with what it holds so far, the latest first. An object knows
the name of the member whose value is being read. -/
inductive Opened where
  | array (elements : List Json)
  | object (members : List (Option String × Json)) (name : Option String)

inductive Stage where
  | value
  | firstElement
  | firstName
  | name (members : List (Option String × Json))
  | separator (members : List (Option String × Json)) (name : Option String)
  | ended (value : Json)

structure Builder where
  stage : Stage
  stack : List Opened

namespace Builder

def start : Builder := ⟨.value, []⟩

def begin? (stack : List Opened) : Token → Option Builder
  | .null => some ⟨.ended .null, stack⟩
  | .bool b => some ⟨.ended (.bool b), stack⟩
  | .number n => some ⟨.ended (.number n), stack⟩
  | .text t => some ⟨.ended (.text t), stack⟩
  | .beginArray => some ⟨.firstElement, .array [] :: stack⟩
  | .beginObject => some ⟨.firstName, stack⟩
  | _ => none

def continue? (value : Json) : List Opened → Token → Option Builder
  | .array elements :: stack, .valueSeparator => some ⟨.value, .array (value :: elements) :: stack⟩
  | .array elements :: stack, .endArray =>
    some ⟨.ended (.array (value :: elements).reverse), stack⟩
  | .object members name :: stack, .valueSeparator =>
    some ⟨.name ((name, value) :: members), stack⟩
  | .object members name :: stack, .endObject =>
    some ⟨.ended (.object ((name, value) :: members).reverse), stack⟩
  | _, _ => none

def step? (builder : Builder) (token : Token) : Option Builder :=
  match builder.stage, builder.stack, token with
  | .value, stack, token => begin? stack token
  | .firstElement, .array _ :: stack, .endArray => some ⟨.ended (.array []), stack⟩
  | .firstElement, stack, token => begin? stack token
  | .firstName, stack, .endObject => some ⟨.ended (.object []), stack⟩
  | .firstName, stack, .text name => some ⟨.separator [] name, stack⟩
  | .name members, stack, .text name => some ⟨.separator members name, stack⟩
  | .separator members name, stack, .nameSeparator => some ⟨.value, .object members name :: stack⟩
  | .ended value, stack, token => continue? value stack token
  | _, _, _ => none

def result? (builder : Builder) : Option Json :=
  match builder.stage, builder.stack with
  | .ended value, [] => some value
  | _, _ => none

end Builder

def ofTokens? (tokens : List Token) : Option Json :=
  (tokens.foldlM Builder.step? Builder.start).bind Builder.result?

def parse? (s : String) : Option Json := (tokens? s.toList).bind ofTokens?

end Json

end OnAir
