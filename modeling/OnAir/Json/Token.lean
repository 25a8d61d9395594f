set_option autoImplicit false

/-!
The tokens of JSON text (RFC 8259). Texts may spell code units of surrogate pairs by escapes; a text
that spells an unpaired one is still a token, but it is no string.
-/
namespace OnAir.Json

structure Number where
  negative : Bool
  whole : Nat
  fraction : Option (List Nat)
  exponent : Option Int
  deriving DecidableEq, Repr

inductive Token where
  | beginArray | endArray | beginObject | endObject | nameSeparator | valueSeparator
  | null
  | bool (value : Bool)
  | number (value : Number)
  /-- `none` stands for a text with an unpaired surrogate. -/
  | text (value : Option String)
  deriving DecidableEq, Repr

def isBlank (c : Char) : Bool := c = ' ' || c = '\t' || c = '\n' || c = '\r'

/-! Numbers -/

def digit (c : Char) : Nat := c.toNat - 48

def ofDigits (digits : List Nat) : Nat := digits.foldl (fun n d => 10 * n + d) 0

def digits? (l : List Char) : Option (List Nat × List Char) :=
  match l.takeWhile Char.isDigit with
  | [] => none
  | ds => some (ds.map digit, l.dropWhile Char.isDigit)

/-- A whole number has no zero in front of other digits. -/
def whole? : List Char → Option (Nat × List Char)
  | '0' :: rest => some (0, rest)
  | l => (digits? l).map fun r => (ofDigits r.1, r.2)

def fraction? : List Char → Option (Option (List Nat) × List Char)
  | '.' :: rest => (digits? rest).map fun r => (some r.1, r.2)
  | l => some (none, l)

def exponentDigits? : List Char → Option (Int × List Char)
  | '-' :: rest => (digits? rest).map fun r => (-(ofDigits r.1 : Int), r.2)
  | '+' :: rest => (digits? rest).map fun r => ((ofDigits r.1 : Int), r.2)
  | l => (digits? l).map fun r => ((ofDigits r.1 : Int), r.2)

def exponent? : List Char → Option (Option Int × List Char)
  | 'e' :: rest | 'E' :: rest => (exponentDigits? rest).map fun r => (some r.1, r.2)
  | l => some (none, l)

def number? (negative : Bool) (l : List Char) : Option (Number × List Char) :=
  match whole? l with
  | none => none
  | some (whole, l) =>
    match fraction? l with
    | none => none
    | some (fraction, l) =>
      (exponent? l).map fun r => (⟨negative, whole, fraction, r.1⟩, r.2)

/-! Texts -/

def hexDigit? (c : Char) : Option Nat :=
  if c.isDigit then some (c.toNat - 48)
  else if 'a' ≤ c ∧ c ≤ 'f' then some (c.toNat - 87)
  else if 'A' ≤ c ∧ c ≤ 'F' then some (c.toNat - 55)
  else none

def codeUnit? (a b c d : Char) : Option Nat :=
  match hexDigit? a, hexDigit? b, hexDigit? c, hexDigit? d with
  | some a, some b, some c, some d => some (4096 * a + 256 * b + 16 * c + d)
  | _, _, _, _ => none

def escaped? : Char → Option Char
  | '\x22' => some '\x22'
  | '\x5c' => some '\x5c'
  | '/' => some '/'
  | 'b' => some '\x08'
  | 'f' => some '\x0c'
  | 'n' => some '\n'
  | 'r' => some '\r'
  | 't' => some '\t'
  | _ => none

/-- The code points and surrogates of a text, up to its closing quotation mark. -/
def units? : List Char → Option (List Nat × List Char)
  | '\x22' :: rest => some ([], rest)
  | '\x5c' :: 'u' :: a :: b :: c :: d :: rest =>
    match codeUnit? a b c d with
    | none => none
    | some n => (units? rest).map fun r => (n :: r.1, r.2)
  | '\x5c' :: e :: rest =>
    match escaped? e with
    | none => none
    | some c => (units? rest).map fun r => (c.toNat :: r.1, r.2)
  | c :: rest =>
    if c = '\x5c' ∨ c.toNat < 32 then none
    else (units? rest).map fun r => (c.toNat :: r.1, r.2)
  | [] => none

def isLead (n : Nat) : Bool := 0xD800 ≤ n && n ≤ 0xDBFF

def isTrail (n : Nat) : Bool := 0xDC00 ≤ n && n ≤ 0xDFFF

/-- Joins each pair of surrogates; `none` if one stays alone. -/
def joinUnits? : List Nat → Option (List Char)
  | [] => some []
  | [n] => if isLead n || isTrail n then none else some [Char.ofNat n]
  | n :: m :: rest =>
    if isLead n && isTrail m then
      (joinUnits? rest).map (Char.ofNat (0x10000 + 0x400 * (n - 0xD800) + (m - 0xDC00)) :: ·)
    else if isLead n || isTrail n then none
    else (joinUnits? (m :: rest)).map (Char.ofNat n :: ·)

def text? (l : List Char) : Option (Option String × List Char) :=
  (units? l).map fun r => ((joinUnits? r.1).map String.ofList, r.2)

/-! Tokens -/

def token? : List Char → Option (Token × List Char)
  | '[' :: rest => some (.beginArray, rest)
  | ']' :: rest => some (.endArray, rest)
  | '\x7b' :: rest => some (.beginObject, rest)
  | '\x7d' :: rest => some (.endObject, rest)
  | ':' :: rest => some (.nameSeparator, rest)
  | ',' :: rest => some (.valueSeparator, rest)
  | 'n' :: 'u' :: 'l' :: 'l' :: rest => some (.null, rest)
  | 't' :: 'r' :: 'u' :: 'e' :: rest => some (.bool true, rest)
  | 'f' :: 'a' :: 'l' :: 's' :: 'e' :: rest => some (.bool false, rest)
  | '\x22' :: rest => (text? rest).map fun r => (.text r.1, r.2)
  | '-' :: rest => (number? true rest).map fun r => (.number r.1, r.2)
  | l => (number? false l).map fun r => (.number r.1, r.2)

theorem digits?_length {l r : List Char} {ds : List Nat} (h : digits? l = some (ds, r)) :
    r.length < l.length := by
  rw [digits?] at h
  split at h
  · cases h
  · next ds hds =>
    cases h
    cases l with
    | nil => exact absurd rfl hds
    | cons c rest =>
      by_cases hc : c.isDigit
      · rw [List.dropWhile_cons_of_pos hc]
        exact Nat.lt_succ_of_le (List.dropWhile_suffix _).length_le
      · exact absurd (List.takeWhile_cons_of_neg hc) hds

theorem whole?_length {l r : List Char} {n : Nat} (h : whole? l = some (n, r)) :
    r.length < l.length := by
  unfold whole? at h
  split at h
  · cases h; simp
  · obtain ⟨p, hp, heq⟩ := Option.map_eq_some_iff.mp h
    cases heq
    exact digits?_length hp

theorem fraction?_length {l r : List Char} {f : Option (List Nat)} (h : fraction? l = some (f, r)) :
    r.length ≤ l.length := by
  unfold fraction? at h
  split at h
  · obtain ⟨p, hp, heq⟩ := Option.map_eq_some_iff.mp h
    cases heq
    exact Nat.le_succ_of_le (Nat.le_of_lt (digits?_length hp))
  · cases h; exact Nat.le_refl _

theorem exponentDigits?_length {l r : List Char} {e : Int} (h : exponentDigits? l = some (e, r)) :
    r.length ≤ l.length := by
  unfold exponentDigits? at h
  split at h
  all_goals
    obtain ⟨p, hp, heq⟩ := Option.map_eq_some_iff.mp h
    cases heq
    have := digits?_length hp
    grind

theorem exponent?_length {l r : List Char} {e : Option Int} (h : exponent? l = some (e, r)) :
    r.length ≤ l.length := by
  unfold exponent? at h
  split at h
  · obtain ⟨p, hp, heq⟩ := Option.map_eq_some_iff.mp h
    cases heq
    exact Nat.le_succ_of_le (exponentDigits?_length hp)
  · obtain ⟨p, hp, heq⟩ := Option.map_eq_some_iff.mp h
    cases heq
    exact Nat.le_succ_of_le (exponentDigits?_length hp)
  · cases h; exact Nat.le_refl _

theorem number?_length {l r : List Char} {negative : Bool} {n : Number}
    (h : number? negative l = some (n, r)) : r.length < l.length := by
  unfold number? at h
  split at h
  · cases h
  · next hw =>
    split at h
    · cases h
    · next hf =>
      obtain ⟨p, hp, heq⟩ := Option.map_eq_some_iff.mp h
      cases heq
      have := whole?_length hw
      have := fraction?_length hf
      have := exponent?_length hp
      omega

theorem units?_length {l r : List Char} {ns : List Nat} (h : units? l = some (ns, r)) :
    r.length < l.length := by
  fun_induction units? l generalizing ns r
  case case1 => cases h; simp
  case case2 => cases h
  case case3 ih =>
    obtain ⟨p, hp, heq⟩ := Option.map_eq_some_iff.mp h
    cases heq
    have := ih hp
    simp only [List.length_cons]
    omega
  case case4 => cases h
  case case5 ih =>
    obtain ⟨p, hp, heq⟩ := Option.map_eq_some_iff.mp h
    cases heq
    have := ih hp
    simp only [List.length_cons]
    omega
  case case6 => cases h
  case case7 ih =>
    obtain ⟨p, hp, heq⟩ := Option.map_eq_some_iff.mp h
    cases heq
    have := ih hp
    simp only [List.length_cons]
    omega
  case case8 => cases h

theorem token?_length {l r : List Char} {t : Token} (h : token? l = some (t, r)) :
    r.length < l.length := by
  unfold token? at h
  split at h
  case h_10 =>
    obtain ⟨p, hp, heq⟩ := Option.map_eq_some_iff.mp h
    cases heq
    obtain ⟨q, hq, heq⟩ := Option.map_eq_some_iff.mp hp
    cases heq
    exact Nat.lt_succ_of_lt (units?_length hq)
  case h_11 =>
    obtain ⟨p, hp, heq⟩ := Option.map_eq_some_iff.mp h
    cases heq
    exact Nat.lt_succ_of_lt (number?_length hp)
  case h_12 =>
    obtain ⟨p, hp, heq⟩ := Option.map_eq_some_iff.mp h
    cases heq
    exact number?_length hp
  all_goals
    cases h
    simp only [List.length_cons]
    omega

def tokens? (l : List Char) : Option (List Token) :=
  match l with
  | [] => some []
  | c :: rest =>
    if isBlank c then tokens? rest
    else
      match _h : token? (c :: rest) with
      | none => none
      | some (token, left) => (tokens? left).map (token :: ·)
termination_by l.length
decreasing_by
  · exact Nat.lt_succ_self rest.length
  · exact token?_length _h

end OnAir.Json
