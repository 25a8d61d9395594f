import OnAir.Edit.Json
import OnAir.Proofs.Rundown.RoundTrip

set_option autoImplicit false

namespace OnAir

namespace Json

@[simp]
theorem fits_ofString (levels : Nat) (s : String) : (ofString s).fits levels = true := by
  simp [ofString, fits]

@[simp]
theorem fits_null (levels : Nat) : null.fits levels = true := by
  simp [fits]

@[simp]
theorem fits_bool (levels : Nat) (b : Bool) : (bool b).fits levels = true := by
  simp [fits]

theorem fits_integer (levels : Nat) (negative : Bool) {n : Nat} (h : n < UInt64.size) :
    (number ⟨negative, n, none, none⟩).fits levels = true := by
  simp [fits, Number.isFinite, h]

@[simp]
theorem fits_uint8 (levels : Nat) (n : UInt8) : (ofNat n.toNat).fits levels = true :=
  fits_integer levels false (Nat.lt_trans n.toNat_lt_size (by decide))

@[simp]
theorem fits_uint64 (levels : Nat) (n : UInt64) : (ofNat n.toNat).fits levels = true :=
  fits_integer levels false n.toNat_lt_size

@[simp]
theorem fits_int64 (levels : Nat) (i : Int64) : (ofInt i.toInt).fits levels = true := by
  have hlow := i.le_toInt
  have hhigh := i.toInt_lt
  refine fits_integer levels _ ?_
  simp only [UInt64.size]
  omega

@[simp]
theorem fits_array (levels : Nat) (elements : List Json) :
    (array elements).fits (levels + 1) = elements.all (fits levels) := by
  simp [fits]

@[simp]
theorem fits_record (levels : Nat) (members : List (String × Json)) :
    (record members).fits (levels + 1) = members.all fun m => m.2.fits levels := by
  simp [record, fits, Function.comp_def]

end Json

variable (levels : Nat)

@[simp]
theorem Id.fits_toJson {kind : Kind} (id : Id kind) : id.toJson.fits levels = true := by
  simp [Id.toJson]

@[simp]
theorem Id.nullable?_elim {kind : Kind} (id : Option (Id kind)) :
    Json.nullable? Id.ofJson? (id.elim .null Id.toJson) = some id := by
  cases id <;> rfl

@[simp]
theorem Reach.fits_toJson (reach : Reach) : reach.toJson.fits levels = true := by
  simp [Reach.toJson]

@[simp]
theorem Content.fits_toJson (content : Content) : content.toJson.fits (levels + 2) = true := by
  cases content <;> simp [Content.toJson]

@[simp]
theorem Item.fits_toJson (item : Item) : item.toJson.fits (levels + 3) = true := by
  simp [Item.toJson]

@[simp]
theorem Line.fits_toJson (line : Line) : line.toJson.fits (levels + 5) = true := by
  simp [Line.toJson]

namespace Edit

open Json.Fields (required? defaulted?)

theorem fits_toJson (edit : Edit) : edit.toJson.fits (levels + 6) = true := by
  cases edit with
  | recompute start runToEnd => cases start <;> simp [toJson, toJson.tagged]
  | _ => simp [toJson, toJson.tagged]

@[simp]
theorem proper_toJson (edit : Edit) : edit.toJson.Proper := by
  cases edit with
  | recompute start runToEnd => cases start <;> simp [toJson, toJson.tagged]
  | _ => simp [toJson, toJson.tagged]

@[simp]
theorem ofJson?_toJson (edit : Edit) : ofJson? edit.toJson = some edit := by
  have hfits : edit.toJson.fits depthLimit = true := edit.fits_toJson 120
  rw [ofJson?, if_pos hfits]
  cases edit <;> simp [toJson, toJson.tagged, ofTagged?, required?, defaulted?, Json.bool?]

/-- Every script is read back from each of its spellings. -/
theorem parseScript?_printScript (edits : List Edit) :
    parseScript? (printScript edits) = some edits ∧
      parseScript? (Json.array (edits.map toJson)).toPrettyString = some edits := by
  have proper : (Json.array (edits.map toJson)).Proper := by simp
  have hedits : Json.list? ofJson? (.array (edits.map toJson)) = some edits :=
    Json.list?_map ofJson?_toJson edits
  constructor
  · rw [parseScript?, printScript, Json.parse?_toCompactString proper, Option.bind_some, hedits]
  · rw [parseScript?, Json.parse?_toPrettyString proper, Option.bind_some, hedits]

end Edit

end OnAir
