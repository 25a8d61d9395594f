import OnAir.Json.Basic

set_option autoImplicit false

namespace OnAir.Json

def hexChar (n : Nat) : Char :=
  if n < 10 then Char.ofNat (48 + n) else Char.ofNat (87 + n)

def escape (c : Char) : List Char :=
  match c with
  | '\x22' => ['\x5c', '\x22']
  | '\x5c' => ['\x5c', '\x5c']
  | '\x08' => ['\x5c', 'b']
  | '\x0c' => ['\x5c', 'f']
  | '\n' => ['\x5c', 'n']
  | '\r' => ['\x5c', 'r']
  | '\t' => ['\x5c', 't']
  | c =>
    if c.toNat < 32 then
      ['\x5c', 'u', '0', '0', hexChar (c.toNat / 16), hexChar (c.toNat % 16)]
    else [c]

def quote (s : String) : List Char := '\x22' :: s.toList.flatMap escape ++ ['\x22']

/-- A text that is no string is spelled by an unpaired surrogate. -/
def printText : Option String → List Char
  | some s => quote s
  | none => ['\x22', '\x5c', 'u', 'd', '8', '0', '0', '\x22']

def printNat (n : Nat) : List Char := Nat.toDigits 10 n

def printInt (i : Int) : List Char :=
  if i < 0 then '-' :: printNat i.natAbs else printNat i.natAbs

def printNumber (n : Number) : List Char :=
  (if n.negative then ['-'] else []) ++ printNat n.whole ++
    (match n.fraction with
      | some digits => '.' :: digits.flatMap printNat
      | none => []) ++
    (match n.exponent with
      | some e => 'e' :: printInt e
      | none => [])

def printBool (b : Bool) : List Char := (if b then "true" else "false").toList

mutual

def compact : Json → List Char
  | null => "null".toList
  | bool b => printBool b
  | number n => printNumber n
  | text t => printText t
  | array elements => '[' :: compactElements true elements
  | object members => '\x7b' :: compactMembers true members

def compactElements (first : Bool) : List Json → List Char
  | [] => [']']
  | e :: rest => (if first then [] else [',']) ++ compact e ++ compactElements false rest

def compactMembers (first : Bool) : List (Option String × Json) → List Char
  | [] => ['\x7d']
  | (name, value) :: rest =>
    (if first then [] else [',']) ++ printText name ++ ':' :: compact value ++
      compactMembers false rest

end

def newLine (depth : Nat) : List Char := '\n' :: List.replicate (2 * depth) ' '

mutual

def pretty (depth : Nat) : Json → List Char
  | null => "null".toList
  | bool b => printBool b
  | number n => printNumber n
  | text t => printText t
  | array [] => ['[', ']']
  | array (e :: rest) =>
    '[' :: newLine (depth + 1) ++ pretty (depth + 1) e ++ prettyElements depth rest
  | object [] => ['\x7b', '\x7d']
  | object ((name, value) :: rest) =>
    '\x7b' :: newLine (depth + 1) ++ printText name ++ ':' :: ' ' :: pretty (depth + 1) value ++
      prettyMembers depth rest

def prettyElements (depth : Nat) : List Json → List Char
  | [] => newLine depth ++ [']']
  | e :: rest =>
    ',' :: newLine (depth + 1) ++ pretty (depth + 1) e ++ prettyElements depth rest

def prettyMembers (depth : Nat) : List (Option String × Json) → List Char
  | [] => newLine depth ++ ['\x7d']
  | (name, value) :: rest =>
    ',' :: newLine (depth + 1) ++ printText name ++ ':' :: ' ' :: pretty (depth + 1) value ++
      prettyMembers depth rest

end

def toCompactString (value : Json) : String := String.ofList (compact value)

def toPrettyString (value : Json) : String := String.ofList (pretty 0 value)

end OnAir.Json
