import OnAir.Id

set_option autoImplicit false

namespace OnAir

structure IdMap (kind : Kind) (ν : Type) where
  entries : List (Id kind × ν)
  increasing : entries.Pairwise fun a b => a.1 < b.1

namespace IdMap

variable {kind : Kind} {ν : Type}

theorem eq_of_entries {m n : IdMap kind ν} (h : m.entries = n.entries) : m = n := by
  cases m; cases n; cases h; rfl

instance [DecidableEq ν] : DecidableEq (IdMap kind ν) := fun m n =>
  if h : m.entries = n.entries then isTrue (eq_of_entries h)
  else isFalse fun e => h (congrArg entries e)

def empty : IdMap kind ν := ⟨[], .nil⟩

def size (m : IdMap kind ν) : Nat := m.entries.length

def isEmpty (m : IdMap kind ν) : Bool := m.entries.isEmpty

def keys (m : IdMap kind ν) : List (Id kind) := m.entries.map (·.1)

def get? (m : IdMap kind ν) (k : Id kind) : Option ν := (m.entries.find? (·.1 = k)).map (·.2)

def place (k : Id kind) (v : ν) : List (Id kind × ν) → List (Id kind × ν)
  | [] => [(k, v)]
  | e :: rest =>
    if k < e.1 then (k, v) :: e :: rest
    else if k = e.1 then (k, v) :: rest
    else e :: place k v rest

theorem mem_place {k : Id kind} {v : ν} {x : Id kind × ν} {l : List (Id kind × ν)}
    (h : x ∈ place k v l) : x = (k, v) ∨ x ∈ l := by
  induction l with
  | nil => exact .inl (by simpa [place] using h)
  | cons e rest ih =>
    rw [place] at h
    split at h
    · simpa using h
    · split at h
      · rcases List.mem_cons.mp h with h | h
        · exact .inl h
        · exact .inr (List.mem_cons_of_mem _ h)
      · rcases List.mem_cons.mp h with h | h
        · exact .inr (by simp [h])
        · exact (ih h).imp_right (List.mem_cons_of_mem _)

theorem place_increasing (k : Id kind) (v : ν) {l : List (Id kind × ν)}
    (h : l.Pairwise fun a b => a.1 < b.1) : (place k v l).Pairwise fun a b => a.1 < b.1 := by
  induction l with
  | nil => simp [place]
  | cons e rest ih =>
    obtain ⟨he, hrest⟩ := List.pairwise_cons.mp h
    rw [place]
    split
    · next hlt =>
      refine List.pairwise_cons.mpr ⟨fun x hx => ?_, h⟩
      rcases List.mem_cons.mp hx with rfl | hx
      · exact hlt
      · exact Id.lt_trans hlt (he x hx)
    · next hnlt =>
      split
      · next heq => exact List.pairwise_cons.mpr ⟨fun x hx => heq ▸ he x hx, hrest⟩
      · next hne =>
        refine List.pairwise_cons.mpr ⟨fun x hx => ?_, ih hrest⟩
        rcases mem_place hx with rfl | hx
        · exact Id.lt_of_not_lt hnlt hne
        · exact he x hx

def insert (m : IdMap kind ν) (k : Id kind) (v : ν) : IdMap kind ν :=
  ⟨place k v m.entries, place_increasing k v m.increasing⟩

def filter (m : IdMap kind ν) (keep : Id kind → Bool) : IdMap kind ν :=
  ⟨m.entries.filter fun e => keep e.1, m.increasing.sublist List.filter_sublist⟩

def erase (m : IdMap kind ν) (k : Id kind) : IdMap kind ν := m.filter fun x => !decide (x = k)

/-- Inserts the entries from left to right, so that the last one with a key stays. -/
def insertAll (m : IdMap kind ν) (entries : List (Id kind × ν)) : IdMap kind ν :=
  entries.foldl (fun m e => m.insert e.1 e.2) m

def ofList (entries : List (Id kind × ν)) : IdMap kind ν := empty.insertAll entries

@[simp]
theorem get?_empty (k : Id kind) : (empty : IdMap kind ν).get? k = none := rfl

theorem find?_place_self (k : Id kind) (v : ν) (l : List (Id kind × ν)) :
    (place k v l).find? (·.1 = k) = some (k, v) := by
  induction l with
  | nil => simp [place]
  | cons e rest ih =>
    rw [place]
    split
    · simp
    · split
      · simp
      · next hne => rw [List.find?_cons_of_neg (by simpa using fun h => hne h.symm), ih]

theorem find?_place_ne {k k' : Id kind} (v : ν) (l : List (Id kind × ν)) (h : k ≠ k') :
    (place k v l).find? (·.1 = k') = l.find? (·.1 = k') := by
  induction l with
  | nil => simp [place, h]
  | cons e rest ih =>
    rw [place]
    split
    · rw [List.find?_cons_of_neg (by simpa using h)]
    · split
      · next heq =>
        rw [List.find?_cons_of_neg (by simpa using h),
          List.find?_cons_of_neg (by simpa [← heq] using h)]
      · by_cases he : e.1 = k'
        · rw [List.find?_cons_of_pos (by simpa using he), List.find?_cons_of_pos (by simpa using he)]
        · rw [List.find?_cons_of_neg (by simpa using he), List.find?_cons_of_neg (by simpa using he),
            ih]

theorem get?_insert (m : IdMap kind ν) (k k' : Id kind) (v : ν) :
    (m.insert k v).get? k' = if k = k' then some v else m.get? k' := by
  split
  · next h => subst h; simp [get?, insert, find?_place_self]
  · next h => simp [get?, insert, find?_place_ne v m.entries h]

theorem get?_insertAll (m : IdMap kind ν) (entries : List (Id kind × ν)) (k : Id kind) :
    (m.insertAll entries).get? k =
      ((entries.filter fun e => decide (e.1 = k)).getLast?.map Prod.snd).or (m.get? k) := by
  induction entries generalizing m with
  | nil => rfl
  | cons e rest ih =>
    change ((m.insert e.1 e.2).insertAll rest).get? k = _
    rw [ih, get?_insert]
    by_cases hk : e.1 = k
    · rw [if_pos hk, List.filter_cons_of_pos (by simpa using hk), List.getLast?_cons]
      cases (rest.filter fun e => decide (e.1 = k)).getLast? <;> rfl
    · rw [if_neg hk, List.filter_cons_of_neg (by simpa using hk)]

theorem get?_ofList_map {α : Type} (key : α → Id kind) (value : α → ν) (l : List α) (k : Id kind) :
    (ofList (l.map fun x => (key x, value x))).get? k =
      (l.filter fun x => decide (key x = k)).getLast?.map value := by
  have hkey : ((fun e : Id kind × ν => decide (e.1 = k)) ∘ fun x => (key x, value x)) =
      fun x => decide (key x = k) := rfl
  rw [ofList, get?_insertAll, List.filter_map, hkey, List.getLast?_map, Option.map_map, get?_empty,
    Option.or_none]
  rfl

theorem get?_filter (m : IdMap kind ν) (keep : Id kind → Bool) (k : Id kind) :
    (m.filter keep).get? k = if keep k then m.get? k else none := by
  have test (e : Id kind × ν) :
      (decide (keep e.1 = true ∧ decide (e.1 = k) = true)) = (keep k && decide (e.1 = k)) := by
    by_cases h : e.1 = k
    · subst h; simp
    · simp [h]
  simp only [get?, filter, List.find?_filter, test]
  by_cases hk : keep k = true <;> simp [hk]

theorem get?_erase (m : IdMap kind ν) (k k' : Id kind) :
    (m.erase k).get? k' = if k' = k then none else m.get? k' := by
  rw [erase, get?_filter]
  by_cases h : k' = k <;> simp [h]

theorem mem_entries_iff {m : IdMap kind ν} {k : Id kind} {v : ν} :
    (k, v) ∈ m.entries ↔ m.get? k = some v := by
  have h := m.increasing
  rw [get?]
  generalize m.entries = l at h
  induction l with
  | nil => simp
  | cons e rest ih =>
    obtain ⟨he, hrest⟩ := List.pairwise_cons.mp h
    by_cases hk : e.1 = k
    · subst hk
      rw [List.find?_cons_of_pos (by simp)]
      simp only [List.mem_cons, Option.map_some, Option.some.injEq]
      constructor
      · rintro (h | h)
        · exact congrArg Prod.snd h.symm
        · exact absurd (he _ h) (Id.lt_irrefl e.1)
      · rintro rfl
        exact .inl rfl
    · rw [List.find?_cons_of_neg (by simpa using hk)]
      refine Iff.trans ?_ (ih hrest)
      simp only [List.mem_cons, or_iff_right_iff_imp]
      rintro rfl
      exact absurd rfl hk

theorem mem_keys_iff {m : IdMap kind ν} {k : Id kind} : k ∈ m.keys ↔ (m.get? k).isSome := by
  simp only [keys, List.mem_map, Option.isSome_iff_exists, ← mem_entries_iff]
  exact ⟨fun ⟨e, he, hk⟩ => ⟨e.2, hk ▸ he⟩, fun ⟨v, hv⟩ => ⟨(k, v), hv, rfl⟩⟩

theorem sublist_of_subset : ∀ {l l' : List (Id kind × ν)}, l.Pairwise (fun a b => a.1 < b.1) →
    l'.Pairwise (fun a b => a.1 < b.1) → l ⊆ l' → l.Sublist l'
  | [], _, _, _, _ => List.nil_sublist _
  | x :: _, [], _, _, h => absurd (h List.mem_cons_self) List.not_mem_nil
  | x :: xs, y :: ys, hx, hy, h => by
    obtain ⟨hlt, hxs⟩ := List.pairwise_cons.mp hx
    obtain ⟨hylt, hys⟩ := List.pairwise_cons.mp hy
    rcases List.mem_cons.mp (h List.mem_cons_self) with rfl | hmem
    · refine (sublist_of_subset hxs hys fun z hz => ?_).cons_cons x
      refine (List.mem_cons.mp (h (List.mem_cons_of_mem x hz))).resolve_left fun heq => ?_
      exact Id.lt_irrefl x.1 (heq ▸ hlt z hz)
    · -- `y` stands before all of `x :: xs`, so it is none of them.
      have hafter : ∀ z ∈ x :: xs, y.1 < z.1 :=
        List.forall_mem_cons.mpr ⟨hylt x hmem, fun z hz => Id.lt_trans (hylt x hmem) (hlt z hz)⟩
      refine (sublist_of_subset hx hys fun z hz => ?_).cons y
      refine (List.mem_cons.mp (h hz)).resolve_left fun heq => ?_
      exact Id.lt_irrefl y.1 (heq ▸ hafter z hz)

theorem subset_entries_iff {m n : IdMap kind ν} :
    m.entries ⊆ n.entries ↔ ∀ k v, m.get? k = some v → n.get? k = some v := by
  simp only [← mem_entries_iff]
  exact ⟨fun h k v => @h (k, v), fun h e => h e.1 e.2⟩

theorem ext {m n : IdMap kind ν} (h : ∀ k, m.get? k = n.get? k) : m = n := by
  have hm : m.entries ⊆ n.entries := subset_entries_iff.mpr fun k v hv => (h k).symm.trans hv
  have hn : n.entries ⊆ m.entries := subset_entries_iff.mpr fun k v hv => (h k).trans hv
  have hlength := (sublist_of_subset n.increasing m.increasing hn).length_le
  exact eq_of_entries ((sublist_of_subset m.increasing n.increasing hm).eq_of_length_le hlength)

def within [DecidableEq ν] (m n : IdMap kind ν) : Bool :=
  m.entries.all fun e => n.get? e.1 = some e.2

theorem within_iff [DecidableEq ν] {m n : IdMap kind ν} :
    m.within n = true ↔ m.entries ⊆ n.entries := by
  simp only [within, List.all_eq_true, decide_eq_true_eq, ← mem_entries_iff]
  exact Iff.rfl

/-- A map of the same size that has all entries of another has no others. -/
theorem eq_of_within [DecidableEq ν] {m n : IdMap kind ν} (hsize : m.size = n.size)
    (h : m.within n = true) : m = n :=
  eq_of_entries ((sublist_of_subset m.increasing n.increasing (within_iff.mp h)).eq_of_length hsize)

end IdMap

end OnAir
