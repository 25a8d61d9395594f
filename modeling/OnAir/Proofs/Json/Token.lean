import OnAir.Json.Printer

set_option autoImplicit false

namespace OnAir.Json

/-! Numbers -/

def endsNumber : List Char → Bool
  | [] => true
  | c :: _ => !(c.isDigit || c = '.' || c = 'e' || c = 'E')

theorem takeWhile_of_endsNumber {rest : List Char} (h : endsNumber rest = true) :
    rest.takeWhile Char.isDigit = [] := by
  cases rest with
  | nil => rfl
  | cons c rest =>
    refine List.takeWhile_cons_of_neg fun hc => ?_
    rw [endsNumber, hc] at h
    cases h

theorem digits?_append {ds rest : List Char} (hds : ∀ c ∈ ds, c.isDigit = true) (hne : ds ≠ [])
    (hrest : rest.takeWhile Char.isDigit = []) :
    digits? (ds ++ rest) = some (ds.map digit, rest) := by
  have hdrop : rest.dropWhile Char.isDigit = rest := by
    have hsplit := List.takeWhile_append_dropWhile (p := Char.isDigit) (l := rest)
    rwa [hrest] at hsplit
  rw [digits?, List.takeWhile_append_of_pos hds, hrest, List.append_nil,
    List.dropWhile_append_of_pos hds, hdrop]
  cases ds with
  | nil => exact absurd rfl hne
  | cons c ds => rfl

theorem isDigit_of_mem_printNat {n : Nat} {c : Char} (h : c ∈ printNat n) : c.isDigit = true :=
  Nat.isDigit_of_mem_toDigits (by decide) (by decide) h

theorem ofDigits_printNat (n : Nat) : ofDigits ((printNat n).map digit) = n := by
  rw [ofDigits, List.foldl_map]
  exact Nat.ofDigitChars_ten_toDigits

theorem digits?_printNat {rest : List Char} (hrest : rest.takeWhile Char.isDigit = []) (n : Nat) :
    digits? (printNat n ++ rest) = some ((printNat n).map digit, rest) :=
  digits?_append (fun _ => isDigit_of_mem_printNat) Nat.toDigits_ne_nil hrest

theorem printNat_of_lt {n : Nat} (h : n < 10) : printNat n = [n.digitChar] :=
  Nat.toDigits_of_lt_base h

theorem exists_cons_printNat (n : Nat) : ∃ c ds, printNat n = c :: ds ∧ c.isDigit = true := by
  cases h : printNat n with
  | nil => exact absurd h Nat.toDigits_ne_nil
  | cons c ds => exact ⟨c, ds, rfl, isDigit_of_mem_printNat (h ▸ List.mem_cons_self)⟩

theorem head?_printNat_ne_zero {n : Nat} (h : n ≠ 0) : (printNat n).head? ≠ some '0' := by
  induction n using Nat.strongRecOn with
  | ind n ih =>
    rw [printNat, Nat.toDigits_eq_if (by decide)]
    split
    · next hlt =>
      intro heq
      have hchar := congrArg Char.toNat (Option.some.inj heq)
      rw [Nat.toNat_digitChar_of_lt_ten hlt] at hchar
      exact h (Nat.add_left_cancel hchar)
    · have hhead := ih (n / 10) (by omega) (by omega)
      rw [printNat] at hhead
      cases hdigits : Nat.toDigits 10 (n / 10) with
      | nil => exact absurd hdigits Nat.toDigits_ne_nil
      | cons c ds =>
        rw [hdigits] at hhead
        exact hhead

theorem whole?_printNat {rest : List Char} (hrest : rest.takeWhile Char.isDigit = []) (n : Nat) :
    whole? (printNat n ++ rest) = some (n, rest) := by
  by_cases h : n = 0
  · subst h
    rfl
  · have hhead := head?_printNat_ne_zero h
    rw [whole?.eq_def]
    split
    · next heq =>
      cases hdigits : printNat n with
      | nil => exact absurd hdigits Nat.toDigits_ne_nil
      | cons c ds =>
        rw [hdigits] at heq hhead
        exact absurd (congrArg some (List.cons.inj heq).1) hhead
    · rw [digits?_printNat hrest, Option.map_some, ofDigits_printNat]

def Number.Proper (n : Number) : Prop :=
  ∀ digits ∈ n.fraction, digits ≠ [] ∧ ∀ d ∈ digits, d < 10

def printFraction : Option (List Nat) → List Char
  | some digits => '.' :: digits.flatMap printNat
  | none => []

def printExponent : Option Int → List Char
  | some e => 'e' :: printInt e
  | none => []

theorem printNumber_eq (n : Number) :
    printNumber n = (if n.negative then ['-'] else []) ++
      (printNat n.whole ++ (printFraction n.fraction ++ printExponent n.exponent)) := by
  rw [printNumber, List.append_assoc, List.append_assoc]
  cases n.fraction <;> cases n.exponent <;> rfl

theorem flatMap_printNat {digits : List Nat} (h : ∀ d ∈ digits, d < 10) :
    digits.flatMap printNat = digits.map Nat.digitChar := by
  induction digits with
  | nil => rfl
  | cons d rest ih =>
    obtain ⟨hd, hrest⟩ := List.forall_mem_cons.mp h
    rw [List.flatMap_cons, printNat_of_lt hd, ih hrest]
    rfl

theorem map_digit_digitChar {digits : List Nat} (h : ∀ d ∈ digits, d < 10) :
    (digits.map Nat.digitChar).map digit = digits := by
  rw [List.map_map]
  refine (List.map_congr_left fun d hd => ?_).trans (List.map_id digits)
  rw [Function.comp_apply, digit, Nat.toNat_digitChar_of_lt_ten (h d hd)]
  exact Nat.add_sub_cancel_left ..

theorem fraction?_some {digits : List Nat} (hne : digits ≠ []) (h : ∀ d ∈ digits, d < 10)
    {rest : List Char} (hrest : rest.takeWhile Char.isDigit = []) :
    fraction? ('.' :: (digits.flatMap printNat ++ rest)) = some (some digits, rest) := by
  have hdigits : ∀ c ∈ digits.flatMap printNat, c.isDigit = true := by
    intro c hc
    obtain ⟨d, -, hcd⟩ := List.mem_flatMap.mp hc
    exact isDigit_of_mem_printNat hcd
  rw [fraction?, digits?_append hdigits _ hrest, flatMap_printNat h, map_digit_digitChar h]
  · rfl
  · rw [flatMap_printNat h]
    exact fun heq => hne (List.map_eq_nil_iff.mp heq)

theorem exponentDigits?_of_digit {c : Char} (h : c.isDigit = true) (rest : List Char) :
    exponentDigits? (c :: rest) = (digits? (c :: rest)).map fun r => ((ofDigits r.1 : Int), r.2) := by
  rw [exponentDigits?.eq_def]
  split
  · next heq =>
    obtain ⟨rfl, -⟩ := List.cons.inj heq
    cases h
  · next heq =>
    obtain ⟨rfl, -⟩ := List.cons.inj heq
    cases h
  · rfl

theorem exponentDigits?_printInt {rest : List Char} (hrest : rest.takeWhile Char.isDigit = [])
    (e : Int) : exponentDigits? (printInt e ++ rest) = some (e, rest) := by
  have hdigits := digits?_printNat hrest e.natAbs
  rw [printInt]
  split
  · next hneg =>
    change (digits? (printNat e.natAbs ++ rest)).map _ = _
    rw [hdigits, Option.map_some, ofDigits_printNat, Int.ofNat_natAbs_of_nonpos (Int.le_of_lt hneg),
      Int.neg_neg]
  · next hpos =>
    obtain ⟨c, ds, hprint, hc⟩ := exists_cons_printNat e.natAbs
    rw [hprint] at hdigits ⊢
    rw [List.cons_append] at hdigits ⊢
    rw [exponentDigits?_of_digit hc, hdigits, Option.map_some, ← hprint, ofDigits_printNat,
      Int.natAbs_of_nonneg (Int.not_lt.mp hpos)]

theorem exponent?_of_endsNumber {rest : List Char} (h : endsNumber rest = true) :
    exponent? rest = some (none, rest) := by
  rw [exponent?.eq_def]
  split
  · cases h
  · cases h
  · rfl

theorem fraction?_of_endsNumber {rest : List Char} (h : endsNumber rest = true) :
    fraction? rest = some (none, rest) := by
  rw [fraction?.eq_def]
  split
  · cases h
  · rfl

theorem takeWhile_printExponent {rest : List Char} (h : endsNumber rest = true) (e : Option Int) :
    (printExponent e ++ rest).takeWhile Char.isDigit = [] := by
  cases e with
  | none => exact takeWhile_of_endsNumber h
  | some e => rfl

theorem exponent?_printExponent {rest : List Char} (h : endsNumber rest = true) (e : Option Int) :
    exponent? (printExponent e ++ rest) = some (e, rest) := by
  cases e with
  | none => exact exponent?_of_endsNumber h
  | some e =>
    have hdigits := exponentDigits?_printInt (takeWhile_of_endsNumber h) e
    exact congrArg (Option.map fun r => (some r.1, r.2)) hdigits

theorem fraction?_printFraction {fraction : Option (List Nat)}
    (proper : ∀ digits ∈ fraction, digits ≠ [] ∧ ∀ d ∈ digits, d < 10) {rest : List Char}
    (h : endsNumber rest = true) (e : Option Int) :
    fraction? (printFraction fraction ++ (printExponent e ++ rest)) =
      some (fraction, printExponent e ++ rest) := by
  cases fraction with
  | none =>
    cases e with
    | none => exact fraction?_of_endsNumber h
    | some e => rfl
  | some digits =>
    obtain ⟨hne, hdigits⟩ := proper digits rfl
    exact fraction?_some hne hdigits (takeWhile_printExponent h e)

theorem takeWhile_printFraction {rest : List Char} (h : endsNumber rest = true)
    (fraction : Option (List Nat)) (e : Option Int) :
    (printFraction fraction ++ (printExponent e ++ rest)).takeWhile Char.isDigit = [] := by
  cases fraction with
  | none => exact takeWhile_printExponent h e
  | some digits => rfl

theorem number?_printNat {n : Number} (proper : n.Proper) {rest : List Char}
    (h : endsNumber rest = true) (negative : Bool) :
    number? negative (printNat n.whole ++ (printFraction n.fraction ++
      (printExponent n.exponent ++ rest))) = some ({ n with negative }, rest) := by
  rw [number?, whole?_printNat (takeWhile_printFraction h n.fraction n.exponent)]
  dsimp only
  rw [fraction?_printFraction proper h]
  dsimp only
  rw [exponent?_printExponent h]
  rfl

theorem token?_of_digit {c : Char} (h : c.isDigit = true) (rest : List Char) :
    token? (c :: rest) = (number? false (c :: rest)).map fun r => (.number r.1, r.2) := by
  rw [token?.eq_def]
  split
  case h_12 => rfl
  all_goals
    next heq =>
      obtain ⟨rfl, -⟩ := List.cons.inj heq
      cases h

theorem token?_printNumber {n : Number} (proper : n.Proper) {rest : List Char}
    (h : endsNumber rest = true) : token? (printNumber n ++ rest) = some (.number n, rest) := by
  have hread := number?_printNat proper h n.negative
  rw [printNumber_eq, List.append_assoc, List.append_assoc, List.append_assoc]
  obtain ⟨negative, whole, fraction, exponent⟩ := n
  cases negative with
  | true => exact congrArg (Option.map fun r => (Token.number r.1, r.2)) hread
  | false =>
    obtain ⟨c, ds, hprint, hc⟩ := exists_cons_printNat whole
    dsimp only at hread ⊢
    rw [hprint] at hread ⊢
    exact (token?_of_digit hc _).trans (congrArg (Option.map fun r => (Token.number r.1, r.2)) hread)

/-! Texts -/

theorem hexDigit?_hexChar {n : Nat} (h : n < 16) : hexDigit? (hexChar n) = some n := by
  revert n
  decide

theorem codeUnit?_hexChar {n : Nat} (h : n < 32) :
    codeUnit? '0' '0' (hexChar (n / 16)) (hexChar (n % 16)) = some n := by
  have hzero : hexDigit? '0' = some 0 := rfl
  rw [codeUnit?, hzero, hexDigit?_hexChar (by omega), hexDigit?_hexChar (by omega)]
  dsimp only
  congr 1
  omega

theorem units?_codeUnit {a b c d : Char} {n : Nat} (h : codeUnit? a b c d = some n)
    (rest : List Char) :
    units? ('\x5c' :: 'u' :: a :: b :: c :: d :: rest) =
      (units? rest).map fun r => (n :: r.1, r.2) := by
  rw [units?, h]

theorem units?_escape (c : Char) (rest : List Char) :
    units? (escape c ++ rest) = (units? rest).map fun r => (c.toNat :: r.1, r.2) := by
  rw [escape.eq_def]
  split
  case h_8 hquote hbackslash _ _ _ _ _ =>
    -- Only a control character is not spelled as it is here.
    split
    · next hcontrol =>
      exact units?_codeUnit (codeUnit?_hexChar hcontrol) rest
    · next hplain =>
      rw [List.singleton_append, units?.eq_def]
      split
      · next heq => exact absurd (List.cons.inj heq).1 hquote
      · next heq => exact absurd (List.cons.inj heq).1 hbackslash
      · next heq => exact absurd (List.cons.inj heq).1 hbackslash
      · next heq =>
        obtain ⟨rfl, rfl⟩ := List.cons.inj heq
        rw [if_neg fun h => h.elim hbackslash hplain]
      · next heq => cases heq
  all_goals rfl

theorem units?_flatMap_escape (l rest : List Char) :
    units? (l.flatMap escape ++ '\x22' :: rest) = some (l.map Char.toNat, rest) := by
  induction l with
  | nil => rfl
  | cons c l ih =>
    rw [List.flatMap_cons, List.append_assoc, units?_escape, ih]
    rfl

theorem isSurrogate_toNat (c : Char) : (isLead c.toNat || isTrail c.toNat) = false := by
  have hvalid : c.toNat.isValidChar := c.valid
  simp only [Nat.isValidChar] at hvalid
  simp only [isLead, isTrail, Bool.or_eq_false_iff, Bool.and_eq_false_iff, decide_eq_false_iff_not]
  omega

theorem joinUnits?_map_toNat (l : List Char) : joinUnits? (l.map Char.toNat) = some l := by
  induction l with
  | nil => rfl
  | cons c l ih =>
    have hc := isSurrogate_toNat c
    cases l with
    | nil =>
      rw [List.map_cons, List.map_nil, joinUnits?, hc, Char.ofNat_toNat]
      rfl
    | cons d l =>
      have hlead := (Bool.or_eq_false_iff.mp hc).1
      rw [List.map_cons, List.map_cons, joinUnits?, hc, hlead, Char.ofNat_toNat, ← List.map_cons, ih]
      rfl

theorem token?_printText (t : Option String) (rest : List Char) :
    token? (printText t ++ rest) = some (.text t, rest) := by
  cases t with
  | none => rfl
  | some s =>
    have hread : text? (s.toList.flatMap escape ++ '\x22' :: rest) = some (some s, rest) := by
      rw [text?, units?_flatMap_escape, Option.map_some, joinUnits?_map_toNat, Option.map_some,
        String.ofList_toList]
    change (text? (s.toList.flatMap escape ++ ['\x22'] ++ rest)).map _ = _
    rw [List.append_assoc, List.singleton_append, hread]
    rfl

/-! Tokens -/

theorem isDigit_of_digits? {c : Char} {l : List Char} {r : List Nat × List Char}
    (h : digits? (c :: l) = some r) : c.isDigit = true := by
  cases hc : c.isDigit with
  | true => rfl
  | false =>
    rw [digits?, List.takeWhile_cons_of_neg (Bool.eq_false_iff.mp hc)] at h
    cases h

theorem isDigit_of_number? {negative : Bool} {c : Char} {l : List Char} {r : Number × List Char}
    (h : number? negative (c :: l) = some r) : c.isDigit = true := by
  rw [number?] at h
  cases hw : whole? (c :: l) with
  | none => rw [hw] at h; cases h
  | some whole =>
    rw [whole?.eq_def] at hw
    split at hw
    · next heq =>
      obtain ⟨rfl, -⟩ := List.cons.inj heq
      rfl
    · obtain ⟨r, hr, -⟩ := Option.map_eq_some_iff.mp hw
      exact isDigit_of_digits? hr

theorem isBlank_of_isDigit {c : Char} (h : c.isDigit = true) : isBlank c = false := by
  refine Bool.eq_false_iff.mpr fun hblank => ?_
  simp only [isBlank, Bool.or_eq_true, decide_eq_true_eq] at hblank
  rcases hblank with ((rfl | rfl) | rfl) | rfl
  all_goals cases h

theorem isBlank_of_token? {c : Char} {l : List Char} {r : Token × List Char}
    (h : token? (c :: l) = some r) : isBlank c = false := by
  rw [token?.eq_def] at h
  split at h
  case h_12 =>
    obtain ⟨_, hnumber, -⟩ := Option.map_eq_some_iff.mp h
    exact isBlank_of_isDigit (isDigit_of_number? hnumber)
  all_goals
    next heq =>
      obtain ⟨rfl, -⟩ := List.cons.inj heq
      rfl

theorem tokens?_of_token? {l rest : List Char} {token : Token} (h : token? l = some (token, rest)) :
    tokens? l = (tokens? rest).map (token :: ·) := by
  cases l with
  | nil => cases h
  | cons c l =>
    rw [tokens?, isBlank_of_token? h, if_neg Bool.false_ne_true]
    split
    · next hnone => rw [hnone] at h; cases h
    · next hsome =>
      obtain ⟨rfl, rfl⟩ := Prod.mk.inj (Option.some.inj (hsome.symm.trans h))
      rfl

theorem tokens?_of_isBlank {c : Char} (h : isBlank c = true) (rest : List Char) :
    tokens? (c :: rest) = tokens? rest := by
  rw [tokens?, if_pos h]

/-- A text spells some tokens in front of another text. -/
def Spells (text : List Char) (tokens : List Token) (rest : List Char) : Prop :=
  tokens? (text ++ rest) = (tokens? rest).map (tokens ++ ·)

namespace Spells

variable {l l' rest : List Char} {ts ts' : List Token}

theorem append (h : Spells l ts (l' ++ rest)) (h' : Spells l' ts' rest) :
    Spells (l ++ l') (ts ++ ts') rest := by
  rw [Spells, List.append_assoc, h, h', Option.map_map]
  refine congrArg (Option.map · (tokens? rest)) (funext fun tokens => ?_)
  exact (List.append_assoc ..).symm

theorem token {t : Token} (h : token? (l ++ rest) = some (t, rest)) : Spells l [t] rest :=
  tokens?_of_token? h

theorem cons {c : Char} {t : Token} (hc : ∀ l, token? (c :: l) = some (t, l))
    (h : Spells l ts rest) : Spells (c :: l) (t :: ts) rest := by
  have hfirst : Spells [c] [t] (l ++ rest) := token (hc (l ++ rest))
  exact append hfirst h

theorem blanks (hl : ∀ c ∈ l, isBlank c = true) (h : Spells l' ts rest) :
    Spells (l ++ l') ts rest := by
  induction l with
  | nil => exact h
  | cons c l ih =>
    obtain ⟨hc, hl⟩ := List.forall_mem_cons.mp hl
    exact (tokens?_of_isBlank hc _).trans (ih hl)

end Spells

end OnAir.Json
