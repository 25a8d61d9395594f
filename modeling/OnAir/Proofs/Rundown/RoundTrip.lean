import OnAir.Proofs.Json.Decode
import OnAir.Proofs.Json.RoundTrip
import OnAir.Rundown.Json

set_option autoImplicit false

namespace OnAir

open Json (Place)
open Json.Fields (required? defaulted?)

namespace Id

variable {kind : Kind}

@[simp]
theorem ofJson?_toJson (id : Id kind) : Id.ofJson? id.toJson = some id := rfl

@[simp]
theorem proper_toJson (id : Id kind) : id.toJson.Proper := .ofString id.text

end Id

namespace Reach

@[simp]
theorem ofJson?_toJson (place : Place) (reach : Reach) : ofJson? place reach.toJson = some reach := by
  cases reach <;> rfl

@[simp]
theorem proper_toJson (reach : Reach) : reach.toJson.Proper := .ofString reach.word

end Reach

namespace LayerKind

@[simp]
theorem ofJson?_toJson (place : Place) (kind : LayerKind) :
    ofJson? place kind.toJson = some kind := by
  cases kind <;> rfl

@[simp]
theorem proper_toJson (kind : LayerKind) : kind.toJson.Proper := .ofString kind.word

end LayerKind

namespace Content

@[simp]
theorem ofJson?_toJson (place : Place) (content : Content) :
    ofJson? place content.toJson = some content := by
  cases content with
  | empty => rfl
  | reference target => rfl
  | inline bytes =>
    have hbytes := Json.list?_map Json.uint8?_ofNat bytes
    exact congrArg (Option.map inline) hbytes

@[simp]
theorem proper_toJson (content : Content) : content.toJson.Proper := by
  cases content <;> simp [toJson]

end Content

namespace Item

@[simp]
theorem ofJson?_toJson (place : Place) (item : Item) : ofJson? place item.toJson = some item := by
  simp [ofJson?, toJson, required?, defaulted?]

@[simp]
theorem proper_toJson (item : Item) : item.toJson.Proper := by
  simp [toJson]

end Item

namespace Line

@[simp]
theorem ofJson?_toJson (place : Place) (line : Line) : ofJson? place line.toJson = some line := by
  simp [ofJson?, toJson, required?, defaulted?]

@[simp]
theorem proper_toJson (line : Line) : line.toJson.Proper := by
  simp [toJson]

end Line

namespace Segment

@[simp]
theorem ofJson?_toJson (segment : Segment) : ofJson? segment.toJson = some segment := by
  simp [ofJson?, toJson, required?, defaulted?]

@[simp]
theorem proper_toJson (segment : Segment) : segment.toJson.Proper := by
  simp [toJson]

end Segment

namespace Layer

@[simp]
theorem ofJson?_toJson (layer : Layer) : ofJson? layer.toJson = some layer := by
  simp [ofJson?, toJson, required?, defaulted?]

@[simp]
theorem proper_toJson (layer : Layer) : layer.toJson.Proper := by
  simp [toJson]

end Layer

namespace Rundown

theorem ofJson?_toJson (rundown : Rundown) : ofJson? rundown.toJson = some rundown := by
  simp [ofJson?, toJson, required?, defaulted?, Json.bool?]

theorem proper_toJson (rundown : Rundown) : rundown.toJson.Proper := by
  simp [toJson]

/-- Every rundown is read back from what is printed of it. -/
theorem parse?_print (rundown : Rundown) : parse? rundown.print = some rundown := by
  rw [parse?, print, Json.parse?_toPrettyString rundown.proper_toJson, Option.bind_some,
    ofJson?_toJson]

end Rundown

end OnAir
