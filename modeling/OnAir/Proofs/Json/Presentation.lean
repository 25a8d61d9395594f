import Mathlib.Data.List.Forall2
import OnAir.Proofs.Json.Decode

set_option autoImplicit false

namespace OnAir.Json

/-- A field of a record: what may be written for its value, and whether it may be left out. -/
structure Slot where
  name : String
  Holds : Json → Prop
  optional : Prop

inductive Fills : List Slot → List (String × Json) → Prop where
  | nil : Fills [] []
  | given {slot : Slot} {value : Json} {slots : List Slot} {members : List (String × Json)} :
    slot.Holds value → Fills slots members → Fills (slot :: slots) ((slot.name, value) :: members)
  | omitted {slot : Slot} {slots : List Slot} {members : List (String × Json)} :
    slot.optional → Fills slots members → Fills (slot :: slots) members

/-- An object gives some fields in any order, and has any members with other names. -/
def Presents (slots : List Slot) (value : Json) : Prop :=
  ∃ members given others, value = record members ∧ members.Perm (given ++ others) ∧
    Fills slots given ∧ ∀ m ∈ others, m.1 ∉ slots.map Slot.name

def PresentsAll {α : Type} (presents : α → Json → Prop) (xs : List α) (value : Json) : Prop :=
  ∃ elements, value = array elements ∧ List.Forall₂ presents xs elements

inductive Slot.Found (slot : Slot) (fields : Fields) : Prop where
  | given {value : Json} : fields.get? slot.name = some value → slot.Holds value → slot.Found fields
  | omitted : fields.get? slot.name = none → slot.optional → slot.Found fields

variable {slots : List Slot} {slot : Slot} {members : List (String × Json)} {value : Json}

namespace Fields

theorem get?_of_mem (hn : (members.map Prod.fst).Nodup) {name : String}
    (h : (name, value) ∈ members) : get? ⟨members⟩ name = some value := by
  induction members with
  | nil => cases h
  | cons first rest ih =>
    obtain ⟨hfirst, hrest⟩ := List.nodup_cons.mp hn
    rw [get?_cons]
    rcases List.mem_cons.mp h with rfl | h
    · exact if_pos rfl
    · have hne : name ≠ first.1 := fun heq => hfirst (heq ▸ List.mem_map_of_mem h)
      rw [if_neg hne]
      exact ih hrest h

theorem get?_eq_none {name : String} (h : name ∉ members.map Prod.fst) :
    get? ⟨members⟩ name = none := by
  refine List.lookup_eq_none_iff.mpr fun m hm => bne_iff_ne.mpr fun heq => h ?_
  exact heq ▸ List.mem_map_of_mem hm

end Fields

namespace Fills

theorem names_sublist (h : Fills slots members) :
    (members.map Prod.fst).Sublist (slots.map Slot.name) := by
  induction h with
  | nil => exact .slnil
  | given _ _ ih => exact ih.cons_cons _
  | omitted _ _ ih => exact ih.cons _

theorem mem_or_omitted (h : Fills slots members) (hn : (slots.map Slot.name).Nodup)
    (hs : slot ∈ slots) :
    (∃ value, (slot.name, value) ∈ members ∧ slot.Holds value) ∨
      (slot.name ∉ members.map Prod.fst ∧ slot.optional) := by
  induction h with
  | nil => cases hs
  | @given first value slots members holds rest ih =>
    obtain ⟨hfirst, hrest⟩ := List.nodup_cons.mp hn
    rcases List.mem_cons.mp hs with rfl | hs
    · exact .inl ⟨value, List.mem_cons_self, holds⟩
    · have hne : slot.name ≠ first.name := fun heq => hfirst (heq ▸ List.mem_map_of_mem hs)
      refine (ih hrest hs).imp (fun ⟨value, hm, h⟩ => ⟨value, List.mem_cons_of_mem _ hm, h⟩) ?_
      exact And.imp_left fun hm h => (List.mem_cons.mp h).elim hne hm
  | @omitted first slots members optional rest ih =>
    obtain ⟨hfirst, hrest⟩ := List.nodup_cons.mp hn
    rcases List.mem_cons.mp hs with rfl | hs
    · exact .inr ⟨fun hm => hfirst (rest.names_sublist.subset hm), optional⟩
    · exact ih hrest hs

end Fills

theorem presents_record (h : Fills slots members) : Presents slots (record members) :=
  ⟨members, members, [], rfl, by simp, h, by simp⟩

/-- Reading a record goes by the names of its fields alone. -/
theorem Presents.fields? (h : Presents slots value) (hn : (slots.map Slot.name).Nodup)
    (least : Nat) :
    ∃ fields, value.fields? (slots.map Slot.name) least = some fields ∧
      ∀ slot ∈ slots, slot.Found fields := by
  obtain ⟨members, given, others, rfl, hperm, fills, unknown⟩ := h
  have hgiven : given.filter (fun m => (slots.map Slot.name).contains m.1) = given :=
    List.filter_eq_self.mpr fun m hm =>
      List.contains_iff_mem.mpr (fills.names_sublist.subset (List.mem_map_of_mem hm))
  have hothers : others.filter (fun m => (slots.map Slot.name).contains m.1) = [] :=
    List.filter_eq_nil_iff.mpr fun m hm => List.contains_iff_mem.not.mpr (unknown m hm)
  have hknown := hperm.filter fun m => (slots.map Slot.name).contains m.1
  rw [List.filter_append, hgiven, hothers, List.append_nil] at hknown
  have nodup := (hknown.map Prod.fst).nodup_iff.mpr (fills.names_sublist.nodup hn)
  have hfields : (record members).fields? (slots.map Slot.name) least =
      some ⟨members.filter fun m => (slots.map Slot.name).contains m.1⟩ := by
    rw [record, Json.fields?, named?_record]
    exact if_pos nodup
  refine ⟨_, hfields, fun slot hs => ?_⟩
  rcases fills.mem_or_omitted hn hs with ⟨value, hm, holds⟩ | ⟨absent, optional⟩
  · exact .given (Fields.get?_of_mem nodup (hknown.mem_iff.mpr hm)) holds
  · have hnames := (hknown.map Prod.fst).mem_iff (a := slot.name)
    exact .omitted (Fields.get?_eq_none (hnames.not.mpr absent)) optional

section Read

variable {α : Type} {read : Json → Option α} {x : α} {fields : Fields} {name : String}
  {Holds : Json → Prop}

theorem Slot.Found.required? (found : Slot.Found ⟨name, Holds, False⟩ fields)
    (h : ∀ value, Holds value → read value = some x) : fields.required? name read = some x := by
  cases found with
  | given hget holds => rw [Fields.required?, hget, Option.bind_some, h _ holds]
  | omitted _ never => exact never.elim

theorem Slot.Found.defaulted? {default : α} (found : Slot.Found ⟨name, Holds, x = default⟩ fields)
    (h : ∀ value, Holds value → read value = some x) :
    fields.defaulted? name read default = some x := by
  rw [Fields.defaulted?]
  cases found with
  | given hget holds =>
    rw [hget]
    exact h _ holds
  | omitted hget heq => rw [hget, heq]

section Written

variable {written : Json}

theorem Slot.Found.required?_written (found : Slot.Found ⟨name, (· = written), False⟩ fields)
    (h : read written = some x) : fields.required? name read = some x :=
  found.required? fun _ heq => heq ▸ h

theorem Slot.Found.defaulted?_written {default : α}
    (found : Slot.Found ⟨name, (· = written), x = default⟩ fields) (h : read written = some x) :
    fields.defaulted? name read default = some x :=
  found.defaulted? fun _ heq => heq ▸ h

end Written

theorem PresentsAll.list? {presents : α → Json → Prop} {xs : List α} (h : PresentsAll presents xs value)
    (hread : ∀ x ∈ xs, ∀ value, presents x value → read value = some x) :
    list? read value = some xs := by
  obtain ⟨elements, rfl, helements⟩ := h
  rw [Json.list?]
  induction helements with
  | nil => rfl
  | cons hx _ ih =>
    obtain ⟨hfirst, hrest⟩ := List.forall_mem_cons.mp hread
    rw [List.mapM_cons, hfirst _ hx, ih hrest]
    rfl

theorem presentsAll_map {presents : α → Json → Prop} {write : α → Json}
    (h : ∀ x, presents x (write x)) (xs : List α) : PresentsAll presents xs (array (xs.map write)) :=
  ⟨_, rfl, List.forall₂_map_right_iff.mpr (List.forall₂_same.mpr fun x _ => h x)⟩

end Read

end OnAir.Json
