set_option autoImplicit false

namespace OnAir.Utf8

structure Fault where
  /-- The number of bytes in front of the fault, all of them whole characters. -/
  start : Nat
  /-- The bytes that are no part of any character, or `none` when the text ends inside one. -/
  extent : Option Nat
  deriving DecidableEq, Repr

def Fault.message (fault : Fault) : String :=
  match fault.extent with
  | some n =>
    "invalid utf-8 sequence of " ++ toString n ++ " bytes from index " ++ toString fault.start
  | none => "incomplete utf-8 byte sequence from index " ++ toString fault.start

structure Partial where
  value : Nat
  seen : Nat
  owed : Nat
  low : Nat
  high : Nat
  deriving DecidableEq, Repr

/-- A character after its first byte: whole, or with bytes to come. Shorter forms of a character
that has a longer one, surrogates, and values past the last code point are ruled out here. -/
def first? (b : Nat) : Option (Char ⊕ Partial) :=
  if b < 0x80 then some (.inl (Char.ofNat b))
  else if 0xC2 ≤ b ∧ b ≤ 0xDF then some (.inr ⟨b - 0xC0, 1, 1, 0x80, 0xBF⟩)
  else if b = 0xE0 then some (.inr ⟨0, 1, 2, 0xA0, 0xBF⟩)
  else if b = 0xED then some (.inr ⟨0xD, 1, 2, 0x80, 0x9F⟩)
  else if 0xE1 ≤ b ∧ b ≤ 0xEF then some (.inr ⟨b - 0xE0, 1, 2, 0x80, 0xBF⟩)
  else if b = 0xF0 then some (.inr ⟨0, 1, 3, 0x90, 0xBF⟩)
  else if 0xF1 ≤ b ∧ b ≤ 0xF3 then some (.inr ⟨b - 0xF0, 1, 3, 0x80, 0xBF⟩)
  else if b = 0xF4 then some (.inr ⟨4, 1, 3, 0x80, 0x8F⟩)
  else none

def Partial.next? (p : Partial) (b : Nat) : Option (Char ⊕ Partial) :=
  if p.low ≤ b ∧ b ≤ p.high then
    let value := 64 * p.value + (b - 0x80)
    if p.owed = 1 then some (.inl (Char.ofNat value))
    else some (.inr ⟨value, p.seen + 1, p.owed - 1, 0x80, 0xBF⟩)
  else none

/-- Decodes UTF-8 (RFC 3629, section 4) behind so many bytes of whole characters, inside a character
or between two. -/
def decodeFrom (start : Nat) : Option Partial → List UInt8 → Except Fault (List Char)
  | none, [] => .ok []
  | some _, [] => .error ⟨start, none⟩
  | none, b :: rest =>
    match first? b.toNat with
    | none => .error ⟨start, some 1⟩
    | some (.inl c) => (decodeFrom (start + 1) none rest).map (c :: ·)
    | some (.inr p) => decodeFrom start (some p) rest
  | some p, b :: rest =>
    match p.next? b.toNat with
    | none => .error ⟨start, some p.seen⟩
    | some (.inl c) => (decodeFrom (start + p.seen + 1) none rest).map (c :: ·)
    | some (.inr q) => decodeFrom start (some q) rest

def decode (bytes : List UInt8) : Except Fault String :=
  (decodeFrom 0 none bytes).map String.ofList

def encode (s : String) : List UInt8 := s.toList.flatMap String.utf8EncodeChar

end OnAir.Utf8
