import Mathlib.Algebra.Group.Nat.Defs
import OnAir.Utf8

set_option autoImplicit false

namespace OnAir

theorem exists_of_map_ok {ε α β : Type} {x : Except ε α} {f : α → β} {b : β}
    (h : x.map f = .ok b) : ∃ a, x = .ok a ∧ f a = b := by
  cases x with
  | error fault => exact nomatch h
  | ok a => exact ⟨a, rfl, Except.ok.inj h⟩

namespace Utf8

def tail : Nat → Nat → List UInt8
  | 0, _ => []
  | owed + 1, v => UInt8.ofNat (v / 64 ^ owed % 64 + 0x80) :: tail owed v

section Encoding

variable {v : Nat}

theorem toNat_ofNat_of_valid (h : v.isValidChar) : (Char.ofNat v).val.toNat = v := by
  rw [Char.ofNat, dif_pos h]
  rfl

theorem utf8EncodeChar_one (h : v < 0x80) :
    String.utf8EncodeChar (Char.ofNat v) = [UInt8.ofNat v] := by
  rw [String.utf8EncodeChar, toNat_ofNat_of_valid (.inl (by omega)), if_pos (by omega)]

theorem utf8EncodeChar_two (hl : 0x80 ≤ v) (hh : v < 0x800) :
    String.utf8EncodeChar (Char.ofNat v) = UInt8.ofNat (v / 64 + 0xC0) :: tail 1 v := by
  have hlead : v / 64 % 32 + 0xC0 = v / 64 + 0xC0 := by omega
  rw [String.utf8EncodeChar, toNat_ofNat_of_valid (.inl (by omega))]
  rw [if_neg (by omega), if_pos (by omega), hlead]
  simp [tail]

theorem utf8EncodeChar_three (hl : 0x800 ≤ v) (hh : v < 0x10000) (hv : v.isValidChar) :
    String.utf8EncodeChar (Char.ofNat v) = UInt8.ofNat (v / 4096 + 0xE0) :: tail 2 v := by
  have hlead : v / 4096 % 16 + 0xE0 = v / 4096 + 0xE0 := by omega
  rw [String.utf8EncodeChar, toNat_ofNat_of_valid hv]
  rw [if_neg (by omega), if_neg (by omega), if_pos (by omega), hlead]
  simp [tail]

theorem utf8EncodeChar_four (hl : 0x10000 ≤ v) (hv : v.isValidChar) :
    String.utf8EncodeChar (Char.ofNat v) = UInt8.ofNat (v / 262144 + 0xF0) :: tail 3 v := by
  have hh : v < 0x110000 := hv.elim (fun h => by omega) (·.2)
  have hlead : v / 262144 % 8 + 0xF0 = v / 262144 + 0xF0 := by omega
  rw [String.utf8EncodeChar, toNat_ofNat_of_valid hv]
  rw [if_neg (by omega), if_neg (by omega), if_neg (by omega), hlead]
  simp [tail]

end Encoding

namespace Partial

/-- A value that begins with the bits that were read, and whose next byte is allowed. -/
structure Admits (p : Partial) (v : Nat) : Prop where
  value : v / 64 ^ p.owed = p.value
  low : p.low ≤ v / 64 ^ (p.owed - 1) % 64 + 0x80
  high : v / 64 ^ (p.owed - 1) % 64 + 0x80 ≤ p.high

/-- Every value that can still come is a character whose code begins with the bytes read so far. -/
structure Reads (p : Partial) (head : List UInt8) : Prop where
  owed : 0 < p.owed
  low : 0x80 ≤ p.low
  high : p.high ≤ 0xBF
  spells : ∀ v, p.Admits v → v.isValidChar ∧
    String.utf8EncodeChar (Char.ofNat v) = head ++ tail p.owed v

end Partial

section FirstByte

variable {b : UInt8} {lead low high : Nat}

theorem ofNat_eq {n : Nat} (h : n = b.toNat) : UInt8.ofNat n = b := by
  rw [h, UInt8.ofNat_toNat]

theorem reads_two (hb : b.toNat = lead + 0xC0) (hl : 2 ≤ lead) (hh : lead ≤ 31) :
    Partial.Reads ⟨lead, 1, 1, 0x80, 0xBF⟩ [b] := by
  refine ⟨Nat.zero_lt_one, Nat.le_refl _, Nat.le_refl _, fun v admits => ?_⟩
  have hvalue : v / 64 = lead := admits.value
  refine ⟨.inl (by omega), ?_⟩
  rw [utf8EncodeChar_two (by omega) (by omega), ofNat_eq (b := b) (by omega)]
  rfl

theorem reads_three (hb : b.toNat = lead + 0xE0) (hl : 0x80 ≤ low) (hh : high ≤ 0xBF)
    (h : ∀ v, v / 4096 = lead → low ≤ v / 64 % 64 + 0x80 → v / 64 % 64 + 0x80 ≤ high →
      0x800 ≤ v ∧ v < 0x10000 ∧ v.isValidChar) : Partial.Reads ⟨lead, 1, 2, low, high⟩ [b] := by
  refine ⟨Nat.zero_lt_two, hl, hh, fun v admits => ?_⟩
  have hvalue : v / 4096 = lead := admits.value
  obtain ⟨hmin, hmax, hv⟩ := h v hvalue admits.low admits.high
  refine ⟨hv, ?_⟩
  rw [utf8EncodeChar_three hmin hmax hv, ofNat_eq (b := b) (by omega)]
  rfl

theorem reads_four (hb : b.toNat = lead + 0xF0) (hl : 0x80 ≤ low) (hh : high ≤ 0xBF)
    (h : ∀ v, v / 262144 = lead → low ≤ v / 4096 % 64 + 0x80 → v / 4096 % 64 + 0x80 ≤ high →
      0x10000 ≤ v ∧ v < 0x110000) : Partial.Reads ⟨lead, 1, 3, low, high⟩ [b] := by
  refine ⟨Nat.zero_lt_succ 2, hl, hh, fun v admits => ?_⟩
  have hvalue : v / 262144 = lead := admits.value
  obtain ⟨hmin, hmax⟩ := h v hvalue admits.low admits.high
  have hv : v.isValidChar := .inr ⟨by omega, hmax⟩
  refine ⟨hv, ?_⟩
  rw [utf8EncodeChar_four hmin hv, ofNat_eq (b := b) (by omega)]
  rfl

/-- The bounds on the second byte leave out what has a shorter form, the surrogates, and what is
past the last code point. -/
theorem reads_of_first? {p : Partial} (h : first? b.toNat = some (.inr p)) : p.Reads [b] := by
  have inj {q : Partial} (h : some (.inr q) = some (.inr p : Char ⊕ Partial)) : q = p :=
    Sum.inr.inj (Option.some.inj h)
  rw [first?] at h
  split at h
  · exact nomatch Option.some.inj h
  split at h
  · exact inj h ▸ reads_two (by omega) (by omega) (by omega)
  split at h
  · exact inj h ▸ reads_three (by omega) (by decide) (by decide) fun v _ _ _ =>
      ⟨by omega, by omega, .inl (by omega)⟩
  split at h
  · exact inj h ▸ reads_three (by omega) (by decide) (by decide) fun v _ _ _ =>
      ⟨by omega, by omega, .inl (by omega)⟩
  split at h
  · refine inj h ▸ reads_three (by omega) (by decide) (by decide) fun v hv _ _ =>
      ⟨by omega, by omega, ?_⟩
    rcases Nat.lt_or_ge v 0xD800 with hlt | hge
    · exact .inl hlt
    · exact .inr ⟨by omega, by omega⟩
  split at h
  · exact inj h ▸ reads_four (by omega) (by decide) (by decide) fun v _ _ _ => ⟨by omega, by omega⟩
  split at h
  · exact inj h ▸ reads_four (by omega) (by decide) (by decide) fun v _ _ _ => ⟨by omega, by omega⟩
  split at h
  · exact inj h ▸ reads_four (by omega) (by decide) (by decide) fun v _ _ _ => ⟨by omega, by omega⟩
  · exact nomatch h

theorem encode_of_first? {c : Char} (h : first? b.toNat = some (.inl c)) :
    String.utf8EncodeChar c = [b] := by
  rw [first?] at h
  split at h
  · next hb =>
    obtain rfl := Sum.inl.inj (Option.some.inj h)
    rw [utf8EncodeChar_one hb, UInt8.ofNat_toNat]
  · (repeat' split at h) <;> exact nomatch h

end FirstByte

namespace Partial

variable {p q : Partial} {b : UInt8} {head : List UInt8}

theorem Reads.admits_of_next (h : p.Reads head) {owed v : Nat} (ho : p.owed = owed + 1)
    (hlow : p.low ≤ b.toNat) (hhigh : b.toNat ≤ p.high)
    (hv : v / 64 ^ owed = 64 * p.value + (b.toNat - 0x80)) :
    p.Admits v ∧ tail p.owed v = b :: tail owed v := by
  have hl := h.low
  have hh := h.high
  have hmod : v / 64 ^ owed % 64 + 0x80 = b.toNat := by omega
  refine ⟨⟨?_, ?_, ?_⟩, ?_⟩
  · rw [ho, Nat.pow_succ, ← Nat.div_div_eq_div_mul, hv]
    omega
  · rw [ho, Nat.add_sub_cancel, hmod]
    exact hlow
  · rw [ho, Nat.add_sub_cancel, hmod]
    exact hhigh
  · rw [ho, tail, ofNat_eq hmod]

theorem Reads.next (h : p.Reads head) (hn : p.next? b.toNat = some (.inr q)) :
    q.Reads (head ++ [b]) := by
  rw [next?] at hn
  split at hn
  · next hb =>
    dsimp only at hn
    split at hn
    · exact nomatch hn
    · next hone =>
      obtain rfl := Sum.inr.inj (Option.some.inj hn)
      have ho : p.owed = p.owed - 1 + 1 := by have := h.owed; omega
      refine ⟨by dsimp only; omega, Nat.le_refl _, Nat.le_refl _, fun v admits => ?_⟩
      obtain ⟨hadmits, htail⟩ := h.admits_of_next ho hb.1 hb.2 admits.value
      obtain ⟨hv, hspells⟩ := h.spells v hadmits
      exact ⟨hv, by rw [hspells, htail, List.append_assoc]; rfl⟩
  · exact nomatch hn

theorem Reads.last (h : p.Reads head) {c : Char} (hn : p.next? b.toNat = some (.inl c)) :
    String.utf8EncodeChar c = head ++ [b] := by
  rw [next?] at hn
  split at hn
  · next hb =>
    dsimp only at hn
    split at hn
    · next hone =>
      obtain rfl := Sum.inl.inj (Option.some.inj hn)
      obtain ⟨hadmits, htail⟩ := h.admits_of_next hone hb.1 hb.2
        (Nat.div_one (64 * p.value + (b.toNat - 0x80)))
      rw [(h.spells _ hadmits).2, htail]
      rfl
    · exact nomatch hn
  · exact nomatch hn

end Partial

def Begun : Option Partial → List UInt8 → Prop
  | none, head => head = []
  | some p, head => p.Reads head

theorem encode_of_decodeFrom {start : Nat} {state : Option Partial} {head bytes : List UInt8}
    {chars : List Char} (begun : Begun state head) (h : decodeFrom start state bytes = .ok chars) :
    chars.flatMap String.utf8EncodeChar = head ++ bytes := by
  induction bytes generalizing start state head chars with
  | nil =>
    cases state with
    | none =>
      obtain rfl := Except.ok.inj h
      obtain rfl := begun
      rfl
    | some p => exact nomatch h
  | cons b rest ih =>
    -- One byte ends a character or goes on with one; either way the rest is decoded from there.
    have whole {start' : Nat} {c : Char} (hc : String.utf8EncodeChar c = head ++ [b])
        (h : (decodeFrom start' none rest).map (c :: ·) = .ok chars) :
        chars.flatMap String.utf8EncodeChar = head ++ b :: rest := by
      obtain ⟨chars', hrest, rfl⟩ := exists_of_map_ok h
      rw [List.flatMap_cons, hc, ih (show Begun none [] from rfl) hrest, List.append_assoc]
      rfl
    have more {start' : Nat} {p : Partial} (begun' : Begun (some p) (head ++ [b]))
        (h : decodeFrom start' (some p) rest = .ok chars) :
        chars.flatMap String.utf8EncodeChar = head ++ b :: rest := by
      rw [ih begun' h, List.append_assoc]
      rfl
    cases state with
    | none =>
      obtain rfl := begun
      rw [decodeFrom] at h
      split at h
      · exact nomatch h
      · next c hfirst => exact whole (encode_of_first? hfirst) h
      · next p hfirst => exact more (reads_of_first? hfirst) h
    | some p =>
      rw [decodeFrom] at h
      split at h
      · exact nomatch h
      · next c hnext => exact whole (begun.last hnext) h
      · next q hnext => exact more (begun.next hnext) h

section Characters

variable {v : Nat}

theorem first?_two (hl : 0x80 ≤ v) (hh : v < 0x800) :
    ∃ p, first? (v / 64 + 0xC0) = some (.inr p) ∧ p.owed = 1 ∧ p.Admits v := by
  rw [first?, if_neg (by omega), if_pos (by omega), Nat.add_sub_cancel]
  exact ⟨_, rfl, rfl, rfl, Nat.le_add_left .., by dsimp only; omega⟩

theorem first?_three (hl : 0x800 ≤ v) (hh : v < 0x10000) (hv : v.isValidChar) :
    ∃ p, first? (v / 4096 + 0xE0) = some (.inr p) ∧ p.owed = 2 ∧ p.Admits v := by
  rw [Nat.isValidChar] at hv
  rw [first?, if_neg (by omega), if_neg (by omega)]
  split
  · exact ⟨_, rfl, rfl, by dsimp only; omega, by dsimp only; omega, by dsimp only; omega⟩
  split
  · exact ⟨_, rfl, rfl, by dsimp only; omega, by dsimp only; omega, by dsimp only; omega⟩
  · rw [if_pos (by omega), Nat.add_sub_cancel]
    exact ⟨_, rfl, rfl, rfl, Nat.le_add_left .., by dsimp only; omega⟩

theorem first?_four (hl : 0x10000 ≤ v) (hh : v < 0x110000) :
    ∃ p, first? (v / 262144 + 0xF0) = some (.inr p) ∧ p.owed = 3 ∧ p.Admits v := by
  rw [first?, if_neg (by omega), if_neg (by omega), if_neg (by omega), if_neg (by omega),
    if_neg (by omega)]
  split
  · exact ⟨_, rfl, rfl, by dsimp only; omega, by dsimp only; omega, by dsimp only; omega⟩
  split
  · rw [Nat.add_sub_cancel]
    exact ⟨_, rfl, rfl, rfl, Nat.le_add_left .., by dsimp only; omega⟩
  · rw [if_pos (by omega)]
    exact ⟨_, rfl, rfl, by dsimp only; omega, by dsimp only; omega, by dsimp only; omega⟩

theorem toNat_ofNat_of_lt {n : Nat} (h : n < 256) : (UInt8.ofNat n).toNat = n := by
  rw [UInt8.toNat_ofNat', Nat.mod_eq_of_lt h]

theorem first?_of_encode (hv : v.isValidChar) :
    (∃ b, String.utf8EncodeChar (Char.ofNat v) = [b] ∧
      first? b.toNat = some (.inl (Char.ofNat v))) ∨
    ∃ b p owed, p.owed = owed + 1 ∧ p.Admits v ∧ first? b.toNat = some (.inr p) ∧
      String.utf8EncodeChar (Char.ofNat v) = b :: tail p.owed v := by
  have hlt : v < 0x110000 := hv.elim (fun h => by omega) (·.2)
  have long {lead owed : Nat} (hlead : lead < 256)
      (hfirst : ∃ p, first? lead = some (.inr p) ∧ p.owed = owed + 1 ∧ p.Admits v)
      (hencode : String.utf8EncodeChar (Char.ofNat v) = UInt8.ofNat lead :: tail (owed + 1) v) :
      ∃ b p owed, p.owed = owed + 1 ∧ p.Admits v ∧ first? b.toNat = some (.inr p) ∧
        String.utf8EncodeChar (Char.ofNat v) = b :: tail p.owed v := by
    obtain ⟨p, hp, ho, admits⟩ := hfirst
    exact ⟨_, p, owed, ho, admits, toNat_ofNat_of_lt hlead ▸ hp, ho ▸ hencode⟩
  rcases Nat.lt_or_ge v 0x80 with h₁ | h₁
  · refine .inl ⟨_, utf8EncodeChar_one h₁, ?_⟩
    rw [toNat_ofNat_of_lt (by omega), first?, if_pos h₁]
  rcases Nat.lt_or_ge v 0x800 with h₂ | h₂
  · exact .inr (long (by omega) (first?_two h₁ h₂) (utf8EncodeChar_two h₁ h₂))
  rcases Nat.lt_or_ge v 0x10000 with h₃ | h₃
  · exact .inr (long (by omega) (first?_three h₂ h₃ hv) (utf8EncodeChar_three h₂ h₃ hv))
  · exact .inr (long (by omega) (first?_four h₃ hlt) (utf8EncodeChar_four h₃ hv))

end Characters

namespace Partial.Admits

variable {p : Partial} {v owed : Nat}

theorem next? (h : p.Admits v) (ho : p.owed = owed + 1) :
    p.next? (v / 64 ^ owed % 64 + 0x80) =
      if owed = 0 then some (.inl (Char.ofNat v))
      else some (.inr ⟨v / 64 ^ owed, p.seen + 1, owed, 0x80, 0xBF⟩) := by
  have hvalue : 64 * p.value + (v / 64 ^ owed % 64 + 0x80 - 0x80) = v / 64 ^ owed := by
    rw [← h.value, ho, Nat.pow_succ, ← Nat.div_div_eq_div_mul]
    omega
  have hlow := h.low
  have hhigh := h.high
  rw [ho, Nat.add_sub_cancel] at hlow hhigh
  rw [Partial.next?, if_pos ⟨hlow, hhigh⟩]
  dsimp only
  rw [hvalue, ho, Nat.add_sub_cancel]
  cases owed with
  | zero => rw [if_pos rfl, if_pos rfl, Nat.pow_zero, Nat.div_one]
  | succ owed => rw [if_neg (by omega), if_neg (by omega)]

theorem decodeFrom (h : p.Admits v) (ho : p.owed = owed + 1) (start : Nat) (rest : List UInt8) :
    decodeFrom start (some p) (tail p.owed v ++ rest) =
      (decodeFrom (start + p.seen + p.owed) none rest).map (Char.ofNat v :: ·) := by
  induction owed generalizing p with
  | zero =>
    rw [ho, tail, tail, List.singleton_append, Utf8.decodeFrom, toNat_ofNat_of_lt (by omega),
      h.next? ho, if_pos rfl]
  | succ owed ih =>
    have admits : Admits ⟨v / 64 ^ (owed + 1), p.seen + 1, owed + 1, 0x80, 0xBF⟩ v :=
      ⟨rfl, Nat.le_add_left .., by dsimp only; omega⟩
    rw [ho, tail, List.cons_append, Utf8.decodeFrom, toNat_ofNat_of_lt (by omega), h.next? ho,
      if_neg (Nat.succ_ne_zero owed)]
    refine (ih admits rfl).trans ?_
    rw [show start + (p.seen + 1) + (owed + 1) = start + p.seen + (owed + 1 + 1) by omega]

end Partial.Admits

theorem decodeFrom_encode (c : Char) (start : Nat) (rest : List UInt8) :
    ∃ start', decodeFrom start none (String.utf8EncodeChar c ++ rest) =
      (decodeFrom start' none rest).map (c :: ·) := by
  have hc : Char.ofNat c.toNat = c := Char.ofNat_toNat c
  have hfound := first?_of_encode c.valid
  rw [show c.val.toNat = c.toNat from rfl, hc] at hfound
  rcases hfound with ⟨b, hencode, hfirst⟩ | ⟨b, p, owed, ho, admits, hfirst, hencode⟩
  · refine ⟨start + 1, ?_⟩
    rw [hencode, List.singleton_append, decodeFrom, hfirst]
  · refine ⟨start + p.seen + p.owed, ?_⟩
    rw [hencode, List.cons_append, decodeFrom, hfirst]
    refine (admits.decodeFrom ho start rest).trans ?_
    rw [hc]

theorem decodeFrom_flatMap (chars : List Char) (start : Nat) :
    decodeFrom start none (chars.flatMap String.utf8EncodeChar) = .ok chars := by
  induction chars generalizing start with
  | nil => rfl
  | cons c rest ih =>
    obtain ⟨start', hdecode⟩ := decodeFrom_encode c start (rest.flatMap String.utf8EncodeChar)
    rw [List.flatMap_cons, hdecode, ih]
    rfl

theorem decode_encode (s : String) : decode (encode s) = .ok s := by
  rw [decode, encode, decodeFrom_flatMap]
  exact congrArg Except.ok String.ofList_toList

/-- The decoder accepts the bytes of texts and no others. -/
theorem decode_eq_ok_iff {bytes : List UInt8} {s : String} :
    decode bytes = .ok s ↔ encode s = bytes := by
  constructor
  · intro h
    obtain ⟨chars, hdecode, rfl⟩ := exists_of_map_ok h
    rw [encode, String.toList_ofList]
    exact encode_of_decodeFrom (show Begun none [] from rfl) hdecode
  · rintro rfl
    exact decode_encode s

end Utf8

end OnAir
