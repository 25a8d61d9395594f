import OnAir.Json.Decode

set_option autoImplicit false

namespace OnAir.Json

variable {α : Type}

@[simp]
theorem string?_ofString (s : String) : string? (ofString s) = some s := rfl

theorem int?_ofInt (i : Int) : int? (ofInt i) = some i := by
  have hzero : (!(decide (i < 0) && decide (i.natAbs = 0))) = true := by
    simp only [Bool.not_eq_true', Bool.and_eq_false_iff, decide_eq_false_iff_not]
    omega
  have hsign : (if decide (i < 0) = true then -(i.natAbs : Int) else i.natAbs) = i := by
    simp only [decide_eq_true_eq]
    split <;> omega
  rw [ofInt, int?, hzero, hsign]
  rfl

theorem natBelow?_ofNat {limit n : Nat} (h : n < limit) : natBelow? limit (ofNat n) = some n := by
  have hint : int? (ofNat n) = some (n : Int) := by
    rw [ofNat, int?, Bool.false_and]
    rfl
  rw [natBelow?, hint]
  exact if_pos h

@[simp]
theorem uint8?_ofNat (n : UInt8) : uint8? (ofNat n.toNat) = some n := by
  rw [uint8?, natBelow?_ofNat n.toNat_lt_size, Option.map_some, UInt8.ofNat_toNat]

@[simp]
theorem uint64?_ofNat (n : UInt64) : uint64? (ofNat n.toNat) = some n := by
  rw [uint64?, natBelow?_ofNat n.toNat_lt_size, Option.map_some, UInt64.ofNat_toNat]

@[simp]
theorem int64?_ofInt (i : Int64) : int64? (ofInt i.toInt) = some i := by
  rw [int64?, int?_ofInt]
  dsimp only
  rw [if_pos ⟨i.minValue_le_toInt, i.toInt_le⟩, Int64.ofInt_toInt]

theorem mapM_map_eq_some {β : Type} {read : β → Option α} {write : α → β}
    (h : ∀ x, read (write x) = some x) (xs : List α) : (xs.map write).mapM read = some xs := by
  induction xs with
  | nil => rfl
  | cons x rest ih =>
    rw [List.map_cons, List.mapM_cons, h, ih]
    rfl

@[simp]
theorem list?_map {read : Json → Option α} {write : α → Json}
    (h : ∀ x, read (write x) = some x) (xs : List α) :
    list? read (array (xs.map write)) = some xs :=
  mapM_map_eq_some h xs

/-! Records -/

theorem named?_record (members : List (String × Json)) :
    named? (members.map fun m => (some m.1, m.2)) = some members := by
  rw [named?]
  apply mapM_map_eq_some
  exact fun _ => rfl

@[simp]
theorem fields?_record {names : List String} (hn : names.Nodup) (least : Nat)
    {members : List (String × Json)} (h : (members.map Prod.fst).Sublist names) :
    fields? names least (record members) = some ⟨members⟩ := by
  have hknown : members.filter (fun m => names.contains m.1) = members :=
    List.filter_eq_self.mpr fun m hm =>
      List.contains_iff_mem.mpr (h.subset (List.mem_map_of_mem hm))
  rw [record, fields?, named?_record]
  dsimp only
  rw [hknown, if_pos (h.nodup hn)]

@[simp]
theorem tagged?_record {tag : String} {members : List (String × Json)}
    (h : tag ∉ members.map Prod.fst) (value : String) :
    tagged? tag (record ((tag, ofString value) :: members)) = some (value, record members) := by
  have hne : ∀ m ∈ members.map fun m => (some m.1, m.2), (m.1 == some tag) = false := by
    refine List.forall_mem_map.mpr fun m hm => beq_eq_false_iff_ne.mpr fun heq => h ?_
    exact Option.some.inj heq ▸ List.mem_map_of_mem hm
  have htag : (members.map fun m => (some m.1, m.2)).filter (fun m => m.1 == some tag) = [] :=
    List.filter_eq_nil_iff.mpr fun m hm => by simp [hne m hm]
  have hothers : (members.map fun m => (some m.1, m.2)).filter (fun m => !(m.1 == some tag)) =
      members.map fun m => (some m.1, m.2) :=
    List.filter_eq_self.mpr fun m hm => by simp [hne m hm]
  simp [record, tagged?, htag, hothers]

namespace Fields

@[simp]
theorem get?_cons (name : String) (value : Json) (rest : List (String × Json)) (wanted : String) :
    get? ⟨(name, value) :: rest⟩ wanted =
      if wanted = name then some value else get? ⟨rest⟩ wanted := by
  rw [get?, List.lookup_cons]
  by_cases h : wanted = name
  · rw [if_pos h, beq_iff_eq.mpr h]
  · rw [if_neg h, beq_eq_false_iff_ne.mpr h]
    rfl

end Fields

end OnAir.Json
