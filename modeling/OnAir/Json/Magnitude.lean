import OnAir.Json.Basic

set_option autoImplicit false

namespace OnAir.Json

def takeDigits (significand : Nat) : List Nat → Nat × Nat
  | [] => (significand, 0)
  | d :: rest =>
    if 10 * significand + d < UInt64.size then takeDigits (10 * significand + d) rest
    else (significand, rest.length + 1)

/-- Rounds to 53 significant bits, a half to the even neighbour. -/
def round53 (n : Nat) : Nat :=
  let unit := 1 <<< (n.log2 - 52)
  let low := n / unit
  let rest := n % unit
  if 2 * rest > unit ∨ (2 * rest = unit ∧ low % 2 = 1) then (low + 1) * unit else low * unit

/-- The least magnitude that rounds to infinity. -/
def overflow : Nat := (1 <<< 1024) - (1 <<< 970)

namespace Number

/-- The significand and the decimal exponent of a number: as many digits as fit 64 bits, first of
the whole part, whose other digits raise the exponent, then of the fraction, whose others do not
count. -/
def scaled (n : Number) : Nat × Int :=
  let (significand, left) := takeDigits 0 ((Nat.toDigits 10 n.whole).map digit)
  let fraction := n.fraction.getD []
  let (significand, dropped) := takeDigits significand fraction
  (significand, left - ((fraction.length - dropped : Nat) : Int) + n.exponent.getD 0)

def isFinite (n : Number) : Bool :=
  (n.fraction.isNone && n.exponent.isNone && n.whole < UInt64.size) ||
    match n.scaled with
    | (0, _) => true
    | (_, .negSucc _) => true
    | (significand, .ofNat e) =>
      e ≤ 308 && round53 significand * round53 (Nat.pow 10 e) < overflow

end Number

/-- Can be taken in whole with so many levels of containers. -/
def fits : Nat → Json → Bool
  | _, null => true
  | _, bool _ => true
  | _, number n => n.isFinite
  | _, text t => t.isSome
  | 0, array _ => false
  | 0, object _ => false
  | levels + 1, array elements => elements.all (fits levels)
  | levels + 1, object members => members.all fun m => m.1.isSome && fits levels m.2

end OnAir.Json
