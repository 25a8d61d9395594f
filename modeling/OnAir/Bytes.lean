set_option autoImplicit false

namespace OnAir.Bytes

def ofNat : Nat → Nat → List UInt8
  | 0, _ => []
  | width + 1, n => UInt8.ofNat n :: ofNat width (n / 256)

def toNat : List UInt8 → Nat
  | [] => 0
  | b :: rest => b.toNat + 256 * toNat rest

/-- The number of values that so many bytes have. -/
def room : Nat → Nat
  | 0 => 1
  | width + 1 => 256 * room width

@[simp]
theorem length_ofNat (width n : Nat) : (ofNat width n).length = width := by
  induction width generalizing n with
  | zero => rfl
  | succ width ih => simp [ofNat, ih]

theorem toNat_ofNat {width n : Nat} (h : n < room width) : toNat (ofNat width n) = n := by
  induction width generalizing n with
  | zero =>
    rw [room] at h
    rw [ofNat, toNat]
    omega
  | succ width ih =>
    rw [room] at h
    have : n / 256 < room width := Nat.div_lt_of_lt_mul h
    rw [ofNat, toNat, ih this, UInt8.toNat_ofNat']
    omega

theorem toNat_lt (l : List UInt8) : toNat l < room l.length := by
  induction l with
  | nil => exact Nat.zero_lt_one
  | cons b rest ih =>
    have := b.toNat_lt
    rw [List.length_cons, room, toNat]
    omega

theorem ofNat_toNat (l : List UInt8) : ofNat l.length (toNat l) = l := by
  induction l with
  | nil => rfl
  | cons b rest ih =>
    have hb := b.toNat_lt
    have hrest : (b.toNat + 256 * toNat rest) / 256 = toNat rest := by omega
    have hfirst : UInt8.ofNat (b.toNat + 256 * toNat rest) = b := by
      apply UInt8.toNat_inj.mp
      rw [UInt8.toNat_ofNat']
      omega
    rw [List.length_cons, toNat, ofNat, hrest, ih, hfirst]

def split? : Nat → List UInt8 → Option (List UInt8 × List UInt8)
  | 0, l => some ([], l)
  | _ + 1, [] => none
  | n + 1, b :: rest => (split? n rest).map fun r => (b :: r.1, r.2)

theorem split?_eq_some_iff {n : Nat} {l taken rest : List UInt8} :
    split? n l = some (taken, rest) ↔ l = taken ++ rest ∧ taken.length = n := by
  induction n generalizing l taken with
  | zero => simp only [split?, Option.some.injEq, Prod.mk.injEq, List.length_eq_zero_iff]; grind
  | succ n ih =>
    cases l with
    | nil =>
      simp only [split?, List.nil_eq, List.append_eq_nil_iff, reduceCtorEq, false_iff]
      rintro ⟨⟨rfl, rfl⟩, h⟩
      cases h
    | cons b l =>
      simp only [split?, Option.map_eq_some_iff, Prod.mk.injEq]
      constructor
      · rintro ⟨⟨t, r⟩, h, rfl, rfl⟩
        obtain ⟨rfl, rfl⟩ := ih.mp h
        exact ⟨rfl, rfl⟩
      · rintro ⟨h, hlen⟩
        cases taken with
        | nil => cases hlen
        | cons c t =>
          cases h
          exact ⟨(t, rest), ih.mpr ⟨rfl, by simpa using hlen⟩, rfl, rfl⟩

theorem split?_eq_none_iff {n : Nat} {l : List UInt8} : split? n l = none ↔ l.length < n := by
  induction n generalizing l with
  | zero => simp [split?]
  | succ n ih => cases l <;> simp [split?, ih]

end OnAir.Bytes
