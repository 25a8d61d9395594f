import OnAir.Proofs.Json.Token

set_option autoImplicit false

namespace OnAir.Json

mutual

def tokens : Json → List Token
  | null => [.null]
  | bool b => [.bool b]
  | number n => [.number n]
  | text t => [.text t]
  | array [] => [.beginArray, .endArray]
  | array (e :: rest) => .beginArray :: tokens e ++ elementTokens rest
  | object [] => [.beginObject, .endObject]
  | object ((name, value) :: rest) =>
    .beginObject :: .text name :: .nameSeparator :: tokens value ++ memberTokens rest

def elementTokens : List Json → List Token
  | [] => [.endArray]
  | e :: rest => .valueSeparator :: tokens e ++ elementTokens rest

def memberTokens : List (Option String × Json) → List Token
  | [] => [.endObject]
  | (name, value) :: rest =>
    .valueSeparator :: .text name :: .nameSeparator :: tokens value ++ memberTokens rest

end

theorem exists_cons_tokens : ∀ value : Json, ∃ t ts, value.tokens = t :: ts ∧ t ≠ .endArray
  | null => ⟨.null, _, rfl, nofun⟩
  | bool b => ⟨.bool b, _, rfl, nofun⟩
  | number n => ⟨.number n, _, rfl, nofun⟩
  | text t => ⟨.text t, _, rfl, nofun⟩
  | array [] | array (_ :: _) => ⟨.beginArray, _, rfl, nofun⟩
  | object [] | object (_ :: _) => ⟨.beginObject, _, rfl, nofun⟩

/-! Building -/

namespace Builder

theorem step?_firstElement {t : Token} (h : t ≠ .endArray) (stack : List Opened) :
    step? ⟨.firstElement, stack⟩ t = step? ⟨.value, stack⟩ t := by
  cases stack with
  | nil => cases t <;> rfl
  | cons opened stack => cases opened <;> cases t <;> first | rfl | exact absurd rfl h

/-- Where an array's first element stands, a value is read as anywhere. -/
theorem foldlM_firstElement (value : Json) (rest : List Token) (stack : List Opened) :
    (value.tokens ++ rest).foldlM step? ⟨.firstElement, stack⟩ =
      (value.tokens ++ rest).foldlM step? ⟨.value, stack⟩ := by
  obtain ⟨t, ts, heq, ht⟩ := value.exists_cons_tokens
  rw [heq, List.cons_append, List.foldlM_cons, List.foldlM_cons, step?_firstElement ht]

end Builder

section Build

open Builder

mutual

theorem foldlM_tokens : ∀ (value : Json) (stack : List Opened),
    value.tokens.foldlM step? ⟨.value, stack⟩ = some ⟨.ended value, stack⟩
  | null, _ => rfl
  | bool _, _ => rfl
  | number _, _ => rfl
  | text _, _ => rfl
  | array [], _ => rfl
  | array (e :: rest), stack => by
    rw [tokens]
    change (e.tokens ++ elementTokens rest).foldlM step? ⟨.firstElement, .array [] :: stack⟩ = _
    rw [foldlM_firstElement, List.foldlM_append, foldlM_tokens e]
    exact foldlM_elementTokens rest e [] stack
  | object [], _ => rfl
  | object ((name, value) :: rest), stack => by
    rw [tokens]
    change (value.tokens ++ memberTokens rest).foldlM step? ⟨.value, .object [] name :: stack⟩ = _
    rw [List.foldlM_append, foldlM_tokens value]
    exact foldlM_memberTokens rest (name, value) [] stack

-- The element read last is not in its array yet: the token behind it puts it there.
theorem foldlM_elementTokens : ∀ (elements : List Json) (last : Json) (done : List Json)
    (stack : List Opened), (elementTokens elements).foldlM step? ⟨.ended last, .array done :: stack⟩ =
      some ⟨.ended (.array ((last :: done).reverse ++ elements)), stack⟩
  | [], last, done, stack => by
    rw [List.append_nil]
    rfl
  | e :: rest, last, done, stack => by
    rw [elementTokens]
    change (e.tokens ++ elementTokens rest).foldlM step? ⟨.value, .array (last :: done) :: stack⟩ = _
    rw [List.foldlM_append, foldlM_tokens e]
    change (elementTokens rest).foldlM step? ⟨.ended e, .array (last :: done) :: stack⟩ = _
    rw [foldlM_elementTokens rest, List.reverse_cons (a := e), List.append_assoc]
    rfl

theorem foldlM_memberTokens : ∀ (members : List (Option String × Json))
    (last : Option String × Json) (done : List (Option String × Json)) (stack : List Opened),
    (memberTokens members).foldlM step? ⟨.ended last.2, .object done last.1 :: stack⟩ =
      some ⟨.ended (.object ((last :: done).reverse ++ members)), stack⟩
  | [], last, done, stack => by
    rw [List.append_nil]
    rfl
  | (name, value) :: rest, last, done, stack => by
    rw [memberTokens]
    change (value.tokens ++ memberTokens rest).foldlM step?
      ⟨.value, .object (last :: done) name :: stack⟩ = _
    rw [List.foldlM_append, foldlM_tokens value]
    change (memberTokens rest).foldlM step? ⟨.ended value, .object (last :: done) name :: stack⟩ = _
    rw [foldlM_memberTokens rest (name, value), List.reverse_cons, List.append_assoc]
    rfl

end

end Build

theorem ofTokens?_tokens (value : Json) : ofTokens? value.tokens = some value := by
  rw [ofTokens?, Builder.start, foldlM_tokens]
  rfl

/-! Spelling -/

inductive Proper : Json → Prop
  | null : Proper null
  | bool (value : Bool) : Proper (bool value)
  | number {value : Number} (h : value.Proper) : Proper (number value)
  | text (value : Option String) : Proper (text value)
  | array {elements : List Json} (h : ∀ e ∈ elements, Proper e) : Proper (array elements)
  | object {members : List (Option String × Json)} (h : ∀ m ∈ members, Proper m.2) :
    Proper (object members)

namespace Proper

@[simp]
theorem array_iff {elements : List Json} : (Json.array elements).Proper ↔ ∀ e ∈ elements, e.Proper :=
  ⟨fun | array h => h, array⟩

@[simp]
theorem object_iff {members : List (Option String × Json)} :
    (Json.object members).Proper ↔ ∀ m ∈ members, m.2.Proper :=
  ⟨fun | object h => h, object⟩

@[simp]
theorem record_iff {members : List (String × Json)} :
    (record members).Proper ↔ ∀ m ∈ members, m.2.Proper :=
  object_iff.trans List.forall_mem_map

@[simp]
theorem ofInt (i : Int) : (Json.ofInt i).Proper := .number nofun

@[simp]
theorem ofNat (n : Nat) : (Json.ofNat n).Proper := .number nofun

@[simp]
theorem ofString (s : String) : (Json.ofString s).Proper := .text (some s)

attribute [simp] Proper.null Proper.bool Proper.text

end Proper

theorem isBlank_of_mem_newLine {depth : Nat} {c : Char} (h : c ∈ newLine depth) :
    isBlank c = true := by
  rcases List.mem_cons.mp h with rfl | h
  · rfl
  · rw [List.eq_of_mem_replicate h]
    rfl

theorem endsNumber_prettyElements (depth : Nat) (elements : List Json) (rest : List Char) :
    endsNumber (prettyElements depth elements ++ rest) = true := by
  cases elements <;> rfl

theorem endsNumber_prettyMembers (depth : Nat) (members : List (Option String × Json))
    (rest : List Char) : endsNumber (prettyMembers depth members ++ rest) = true := by
  cases members <;> rfl

variable {text rest : List Char} {ts : List Token}

theorem spells_onLine {c : Char} {t : Token} (hc : ∀ l, token? (c :: l) = some (t, l)) (depth : Nat)
    (h : Spells text ts rest) : Spells (c :: newLine depth ++ text) (t :: ts) rest :=
  .cons hc (.blanks (fun _ => isBlank_of_mem_newLine) h)

theorem spells_member (name : Option String) (h : Spells text ts rest) :
    Spells (printText name ++ ':' :: ' ' :: text) (.text name :: .nameSeparator :: ts) rest := by
  have hblank : ∀ c ∈ [' '], isBlank c = true := List.forall_mem_singleton.mpr rfl
  have hvalue : Spells (' ' :: text) ts rest := .blanks hblank h
  have hcolon : Spells (':' :: ' ' :: text) (.nameSeparator :: ts) rest := .cons (fun _ => rfl) hvalue
  exact .append (.token (token?_printText name _)) hcolon

theorem spells_close {c : Char} {t : Token} (hc : ∀ l, token? (c :: l) = some (t, l)) (depth : Nat)
    (rest : List Char) : Spells (newLine depth ++ [c]) [t] rest :=
  .blanks (fun _ => isBlank_of_mem_newLine) (.token (hc rest))

/-- A value is spelled whatever stands behind it that no number goes on with. -/
def Spelled (value : Json) : Prop :=
  ∀ depth rest, endsNumber rest = true → Spells (pretty depth value) value.tokens rest

namespace Spelled

variable {value : Json} {c : Char} {t : Token}

theorem element (h : value.Spelled) (hc : ∀ l, token? (c :: l) = some (t, l)) (depth : Nat)
    (elements : List Json) (rest : List Char) :
    Spells (c :: newLine (depth + 1) ++ pretty (depth + 1) value) (t :: value.tokens)
      (prettyElements depth elements ++ rest) :=
  spells_onLine hc (depth + 1) (h (depth + 1) _ (endsNumber_prettyElements depth elements rest))

theorem member (h : value.Spelled) (hc : ∀ l, token? (c :: l) = some (t, l))
    (name : Option String) (depth : Nat) (members : List (Option String × Json)) (rest : List Char) :
    Spells (c :: newLine (depth + 1) ++ printText name ++ ':' :: ' ' :: pretty (depth + 1) value)
      (t :: .text name :: .nameSeparator :: value.tokens) (prettyMembers depth members ++ rest) := by
  have hvalue := h (depth + 1) _ (endsNumber_prettyMembers depth members rest)
  rw [List.append_assoc]
  exact spells_onLine hc (depth + 1) (spells_member name hvalue)

end Spelled

theorem spells_prettyElements {elements : List Json} (h : ∀ e ∈ elements, e.Spelled) (depth : Nat)
    (rest : List Char) : Spells (prettyElements depth elements) (elementTokens elements) rest := by
  induction elements with
  | nil => exact spells_close (fun _ => rfl) depth rest
  | cons e elements ih =>
    obtain ⟨he, helements⟩ := List.forall_mem_cons.mp h
    exact .append (he.element (c := ',') (fun _ => rfl) depth elements rest) (ih helements)

theorem spells_prettyMembers {members : List (Option String × Json)}
    (h : ∀ m ∈ members, m.2.Spelled) (depth : Nat) (rest : List Char) :
    Spells (prettyMembers depth members) (memberTokens members) rest := by
  induction members with
  | nil => exact spells_close (fun _ => rfl) depth rest
  | cons m members ih =>
    obtain ⟨hm, hmembers⟩ := List.forall_mem_cons.mp h
    exact .append (hm.member (c := ',') (fun _ => rfl) m.1 depth members rest) (ih hmembers)

/-- Line by line, a value is spelled so that its tokens are read. -/
theorem spells_pretty {value : Json} (proper : value.Proper) : value.Spelled := by
  induction proper with
  | null => exact fun _ _ _ => .token rfl
  | bool b => cases b <;> exact fun _ _ _ => .token rfl
  | number proper => exact fun _ _ h => .token (token?_printNumber proper h)
  | text t => exact fun _ rest _ => .token (token?_printText t rest)
  | @array elements _ ih =>
    intro depth rest _
    cases elements with
    | nil => exact .cons (fun _ => rfl) (.token rfl)
    | cons e elements =>
      obtain ⟨he, helements⟩ := List.forall_mem_cons.mp ih
      exact .append (he.element (c := '[') (fun _ => rfl) depth elements rest)
        (spells_prettyElements helements depth rest)
  | @object members _ ih =>
    intro depth rest _
    cases members with
    | nil => exact .cons (fun _ => rfl) (.token rfl)
    | cons m members =>
      obtain ⟨hm, hmembers⟩ := List.forall_mem_cons.mp ih
      exact .append (hm.member (c := '\x7b') (fun _ => rfl) m.1 depth members rest)
        (spells_prettyMembers hmembers depth rest)

/-! Spelling without any blanks -/

theorem endsNumber_compactElements (elements : List Json) (rest : List Char) :
    endsNumber (compactElements false elements ++ rest) = true := by
  cases elements <;> rfl

theorem endsNumber_compactMembers (members : List (Option String × Json)) (rest : List Char) :
    endsNumber (compactMembers false members ++ rest) = true := by
  cases members <;> rfl

def SpelledCompactly (value : Json) : Prop :=
  ∀ rest, endsNumber rest = true → Spells (compact value) value.tokens rest

theorem SpelledCompactly.member {value : Json} (h : value.SpelledCompactly) (name : Option String)
    (members : List (Option String × Json)) (rest : List Char) :
    Spells (printText name ++ ':' :: compact value) (.text name :: .nameSeparator :: value.tokens)
      (compactMembers false members ++ rest) := by
  have hvalue := h _ (endsNumber_compactMembers members rest)
  exact .append (.token (token?_printText name _)) (.cons (fun _ => rfl) hvalue)

theorem spells_compactElements {elements : List Json} (h : ∀ e ∈ elements, e.SpelledCompactly)
    (rest : List Char) : Spells (compactElements false elements) (elementTokens elements) rest := by
  induction elements with
  | nil => exact .token rfl
  | cons e elements ih =>
    obtain ⟨he, helements⟩ := List.forall_mem_cons.mp h
    have hfirst := he _ (endsNumber_compactElements elements rest)
    exact .cons (fun _ => rfl) (.append hfirst (ih helements))

theorem spells_compactMembers {members : List (Option String × Json)}
    (h : ∀ m ∈ members, m.2.SpelledCompactly) (rest : List Char) :
    Spells (compactMembers false members) (memberTokens members) rest := by
  induction members with
  | nil => exact .token rfl
  | cons m members ih =>
    obtain ⟨hm, hmembers⟩ := List.forall_mem_cons.mp h
    have hfirst := hm.member m.1 members rest
    exact .cons (c := ',') (fun _ => rfl) (.append hfirst (ih hmembers))

theorem spells_compact {value : Json} (proper : value.Proper) : value.SpelledCompactly := by
  induction proper with
  | null => exact fun _ _ => .token rfl
  | bool b => cases b <;> exact fun _ _ => .token rfl
  | number proper => exact fun _ h => .token (token?_printNumber proper h)
  | text t => exact fun rest _ => .token (token?_printText t rest)
  | @array elements _ ih =>
    intro rest _
    cases elements with
    | nil => exact .cons (fun _ => rfl) (.token rfl)
    | cons e elements =>
      obtain ⟨he, helements⟩ := List.forall_mem_cons.mp ih
      have hfirst := he _ (endsNumber_compactElements elements rest)
      exact .cons (fun _ => rfl) (.append hfirst (spells_compactElements helements rest))
  | @object members _ ih =>
    intro rest _
    cases members with
    | nil => exact .cons (fun _ => rfl) (.token rfl)
    | cons m members =>
      obtain ⟨hm, hmembers⟩ := List.forall_mem_cons.mp ih
      have hfirst := hm.member m.1 members rest
      exact .cons (fun _ => rfl) (.append hfirst (spells_compactMembers hmembers rest))

theorem parse?_of_spells {value : Json} (h : Spells text value.tokens []) :
    parse? (String.ofList text) = some value := by
  rw [Spells, List.append_nil, tokens?, Option.map_some, List.append_nil] at h
  rw [parse?, String.toList_ofList, h]
  exact ofTokens?_tokens value

/-- A value is read back from each of its spellings. -/
theorem parse?_toCompactString {value : Json} (proper : value.Proper) :
    parse? value.toCompactString = some value :=
  parse?_of_spells (spells_compact proper [] rfl)

theorem parse?_toPrettyString {value : Json} (proper : value.Proper) :
    parse? value.toPrettyString = some value :=
  parse?_of_spells (spells_pretty proper 0 [] rfl)

end OnAir.Json
