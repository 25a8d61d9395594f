set_option autoImplicit false

namespace OnAir

inductive Kind where
  | rundown | layer | segment | line | item
  deriving DecidableEq, Repr

def Kind.word : Kind → String
  | .rundown => "rundown"
  | .layer => "source layer"
  | .segment => "segment"
  | .line => "line"
  | .item => "item"

/-- A text that the editors of a rundown choose. Identifiers of a kind are ordered by code points. -/
structure Id (kind : Kind) where
  text : String
  deriving DecidableEq, Repr

/-- An identifier with its kind as a value, for lists and messages that mix kinds. -/
structure Name where
  kind : Kind
  text : String
  deriving DecidableEq, Repr

namespace Id

variable {kind : Kind}

def name (a : Id kind) : Name := ⟨kind, a.text⟩

theorem name_inj {a b : Id kind} : a.name = b.name ↔ a = b := by
  cases a; cases b; simp [name]

instance : LT (Id kind) := ⟨fun a b => a.text < b.text⟩

instance (a b : Id kind) : Decidable (a < b) := inferInstanceAs (Decidable (a.text < b.text))

theorem lt_irrefl (a : Id kind) : ¬ a < a := String.lt_irrefl a.text

theorem lt_trans {a b c : Id kind} (h : a < b) (h' : b < c) : a < c := String.lt_trans h h'

theorem lt_asymm {a b : Id kind} (h : a < b) : ¬ b < a := String.lt_asymm h

theorem ne_of_lt {a b : Id kind} (h : a < b) : a ≠ b := fun e => lt_irrefl b (e ▸ h)

theorem lt_of_not_lt {a b : Id kind} (h : ¬ a < b) (hne : a ≠ b) : b < a := by
  have hle : b.text ≤ a.text := Classical.byContradiction fun hn => h (String.not_le.mp hn)
  refine Classical.byContradiction fun hn => hne ?_
  have hle' : a.text ≤ b.text := Classical.byContradiction fun hm => hn (String.not_le.mp hm)
  cases a; cases b
  exact congrArg Id.mk (String.le_antisymm hle' hle)

end Id

end OnAir
