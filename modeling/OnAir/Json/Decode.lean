import OnAir.Json.Basic

set_option autoImplicit false

namespace OnAir.Json

def bool? : Json → Option Bool
  | bool b => some b
  | _ => none

def string? : Json → Option String
  | text t => t
  | _ => none

/-- An integer has no point and no exponent, and zero has no sign. -/
def int? : Json → Option Int
  | number n =>
    if n.fraction.isNone && n.exponent.isNone && !(n.negative && n.whole = 0) then
      some (if n.negative then -(n.whole : Int) else n.whole)
    else none
  | _ => none

def natBelow? (limit : Nat) (value : Json) : Option Nat :=
  match value.int? with
  | some (.ofNat n) => if n < limit then some n else none
  | _ => none

def uint8? (value : Json) : Option UInt8 := (value.natBelow? UInt8.size).map UInt8.ofNat

def uint16? (value : Json) : Option UInt16 := (value.natBelow? UInt16.size).map UInt16.ofNat

def uint32? (value : Json) : Option UInt32 := (value.natBelow? UInt32.size).map UInt32.ofNat

def uint64? (value : Json) : Option UInt64 := (value.natBelow? UInt64.size).map UInt64.ofNat

def int64? (value : Json) : Option Int64 :=
  match value.int? with
  | some i => if Int64.minValue.toInt ≤ i ∧ i ≤ Int64.maxValue.toInt then some (.ofInt i) else none
  | none => none

def list? {α : Type} (read : Json → Option α) : Json → Option (List α)
  | array elements => elements.mapM read
  | _ => none

def nullable? {α : Type} (read : Json → Option α) : Json → Option (Option α)
  | null => some none
  | value => (read value).map some

/-- Where a value stands. An edit is taken in whole before its parts are read, and spellings inside
one are a little wider. -/
inductive Place where
  | document | edit
  deriving DecidableEq, Repr

def isUnit (place : Place) : Json → Bool
  | null => true
  | object [] => place = .edit
  | _ => false

def choice? {α : Type} (place : Place) (words : List (String × α)) : Json → Option α
  | text (some word) => words.lookup word
  | object [(some word, value)] => if isUnit place value then words.lookup word else none
  | _ => none

/-- One of some words, as the head of an array. An edit may have the word's index in its place. -/
def head? {α : Type} (place : Place) (words : List (String × α)) : Json → Option α
  | text (some word) => words.lookup word
  | value =>
    match place with
    | .document => none
    | .edit => ((value.natBelow? words.length).bind fun n => words[n]?).map Prod.snd

structure Fields where
  members : List (String × Json)

namespace Fields

def get? (fields : Fields) (name : String) : Option Json := fields.members.lookup name

def required? {α : Type} (fields : Fields) (name : String) (read : Json → Option α) : Option α :=
  (fields.get? name).bind read

def defaulted? {α : Type} (fields : Fields) (name : String) (read : Json → Option α)
    (default : α) : Option α :=
  match fields.get? name with
  | none => some default
  | some value => read value

end Fields

def named? (members : List (Option String × Json)) : Option (List (String × Json)) :=
  members.mapM fun m => m.1.map (·, m.2)

/-- The fields of a record with the given names. An object gives each at most once, and its other
members do not matter; an array gives the first fields in order, at least so many. -/
def fields? (names : List String) (least : Nat) : Json → Option Fields
  | array elements =>
    if least ≤ elements.length ∧ elements.length ≤ names.length then
      some ⟨names.zip elements⟩
    else none
  | object members =>
    match named? members with
    | none => none
    | some members =>
      let known := members.filter fun m => names.contains m.1
      if (known.map Prod.fst).Nodup then some ⟨known⟩ else none
  | _ => none

def tagged? (tag : String) : Json → Option (String × Json)
  | array (first :: rest) => first.string?.map (·, array rest)
  | object members =>
    match members.filter fun m => m.1 == some tag with
    | [(_, value)] =>
      value.string?.map (·, object (members.filter fun m => !(m.1 == some tag)))
    | _ => none
  | _ => none

end OnAir.Json
