import OnAir.Board
import OnAir.Json.Decode
import OnAir.Json.Printer
import OnAir.Rundown.Basic

set_option autoImplicit false

namespace OnAir

open Json (Place)

def Id.toJson {kind : Kind} (id : Id kind) : Json := .ofString id.text

def Id.ofJson? {kind : Kind} (value : Json) : Option (Id kind) := value.string?.map Id.mk

namespace Reach

def word : Reach → String
  | ownLine => "none"
  | nextItem => "to_next_line"
  | segmentEnd => "to_end_of_segment"
  | rundownEnd => "to_end_of_rundown"

def words : List (String × Reach) :=
  [ownLine, nextItem, segmentEnd, rundownEnd].map fun reach => (reach.word, reach)

def toJson (reach : Reach) : Json := .ofString reach.word

def ofJson? (place : Place) : Json → Option Reach := Json.choice? place words

end Reach

namespace LayerKind

def word : LayerKind → String
  | graphics => "graphics"
  | camera => "camera"
  | vt => "vt"
  | audio => "audio"
  | script => "script"
  | lights => "lights"
  | other => "other"

def words : List (String × LayerKind) :=
  [graphics, camera, vt, audio, script, lights, other].map fun kind => (kind.word, kind)

def toJson (kind : LayerKind) : Json := .ofString kind.word

def ofJson? (place : Place) : Json → Option LayerKind := Json.choice? place words

end LayerKind

namespace Content

inductive Form where
  | empty | reference | inline
  deriving DecidableEq, Repr

def Form.words : List (String × Form) :=
  [("empty", .empty), ("reference", .reference), ("inline", .inline)]

def toJson : Content → Json
  | empty => .record [("type", .ofString "empty")]
  | reference target => .record [("type", .ofString "reference"), ("value", .ofString target)]
  | inline bytes =>
    .record [("type", .ofString "inline"),
      ("value", .array (bytes.map fun byte => .ofNat byte.toNat))]

def ofForm? (form : Form) (value : Option Json) : Option Content :=
  match form, value with
  | .empty, none => some empty
  | .empty, some .null => some empty
  | .empty, some _ => none
  | .reference, value => (value.bind Json.string?).map reference
  | .inline, value => (value.bind (Json.list? Json.uint8?)).map inline

def ofJson? (place : Place) : Json → Option Content
  | .array [form, value] => do ofForm? (← Json.head? place Form.words form) (some value)
  | .object members => do
    let fields ← Json.fields? ["type", "value"] 2 (.object members)
    let form ← fields.required? "type" (Json.choice? place Form.words)
    ofForm? form (fields.get? "value")
  | _ => none

end Content

namespace Item

def toJson (item : Item) : Json :=
  .record [("id", item.id.toJson), ("layer", item.layer.toJson),
    ("expected_duration_ms", .ofInt item.duration.toInt), ("infinite_mode", item.reach.toJson),
    ("content", item.content.toJson)]

def ofJson? (place : Place) (value : Json) : Option Item := do
  let fields ← value.fields?
    ["id", "layer", "expected_duration_ms", "infinite_mode", "content"] 3
  return {
    id := ← fields.required? "id" Id.ofJson?
    layer := ← fields.required? "layer" Id.ofJson?
    duration := ← fields.required? "expected_duration_ms" Json.int64?
    reach := ← fields.defaulted? "infinite_mode" (Reach.ofJson? place) .ownLine
    content := ← fields.defaulted? "content" (Content.ofJson? place) .empty }

end Item

namespace Line

def toJson (line : Line) : Json :=
  .record [("id", line.id.toJson), ("title", .ofString line.title),
    ("expected_duration_ms", .ofNat line.duration.toNat),
    ("items", .array (line.items.map Item.toJson))]

def ofJson? (place : Place) (value : Json) : Option Line := do
  let fields ← value.fields? ["id", "title", "expected_duration_ms", "items"] 1
  return {
    id := ← fields.required? "id" Id.ofJson?
    title := ← fields.defaulted? "title" Json.string? ""
    duration := ← fields.defaulted? "expected_duration_ms" Json.uint64? 0
    items := ← fields.defaulted? "items" (Json.list? (Item.ofJson? place)) [] }

end Line

namespace Segment

def toJson (segment : Segment) : Json :=
  .record [("id", segment.id.toJson), ("name", .ofString segment.name),
    ("lines", .array (segment.lines.map Line.toJson))]

def ofJson? (value : Json) : Option Segment := do
  let fields ← value.fields? ["id", "name", "lines"] 1
  return {
    id := ← fields.required? "id" Id.ofJson?
    name := ← fields.defaulted? "name" Json.string? ""
    lines := ← fields.defaulted? "lines" (Json.list? (Line.ofJson? .document)) [] }

end Segment

namespace Layer

def toJson (layer : Layer) : Json :=
  .record [("id", layer.id.toJson), ("name", .ofString layer.name), ("kind", layer.kind.toJson)]

def ofJson? (value : Json) : Option Layer := do
  let fields ← value.fields? ["id", "name", "kind"] 1
  return {
    id := ← fields.required? "id" Id.ofJson?
    name := ← fields.defaulted? "name" Json.string? ""
    kind := ← fields.defaulted? "kind" (LayerKind.ofJson? .document) .other }

end Layer

namespace Rundown

def toJson (rundown : Rundown) : Json :=
  .record [("id", rundown.id.toJson), ("name", .ofString rundown.name),
    ("active", .bool rundown.active), ("source_layers", .array (rundown.layers.map Layer.toJson)),
    ("segments", .array (rundown.segments.map Segment.toJson))]

def ofJson? (value : Json) : Option Rundown := do
  let fields ← value.fields? ["id", "name", "active", "source_layers", "segments"] 1
  return {
    id := ← fields.required? "id" Id.ofJson?
    name := ← fields.defaulted? "name" Json.string? ""
    active := ← fields.defaulted? "active" Json.bool? false
    layers := ← fields.defaulted? "source_layers" (Json.list? Layer.ofJson?) []
    segments := ← fields.defaulted? "segments" (Json.list? Segment.ofJson?) [] }

def print (rundown : Rundown) : String := rundown.toJson.toPrettyString

def parse? (s : String) : Option Rundown := (Json.parse? s).bind ofJson?

end Rundown

namespace Airing

def toJson (airing : Airing) : Json :=
  .record [("origin", airing.origin.toJson), ("origin_line", airing.originLine.toJson),
    ("mode", airing.reach.toJson), ("is_continuation", .bool airing.continued),
    ("window", .record [("elapsed_ms", .ofNat airing.elapsed.toNat),
      ("duration_ms", airing.duration.elim .null fun d => .ofInt d.toInt)])]

/-- Inside its window, the duration may be missing from an object. -/
def ofJson? (value : Json) : Option Airing := do
  let fields ← value.fields? ["origin", "origin_line", "mode", "is_continuation", "window"] 5
  let window ← fields.required? "window" (Json.fields? ["elapsed_ms", "duration_ms"] 2)
  return {
    origin := ← fields.required? "origin" Id.ofJson?
    originLine := ← fields.required? "origin_line" Id.ofJson?
    reach := ← fields.required? "mode" (Reach.ofJson? .document)
    continued := ← fields.required? "is_continuation" Json.bool?
    elapsed := ← window.required? "elapsed_ms" Json.uint64?
    duration := ← window.defaulted? "duration_ms" (Json.nullable? Json.int64?) none }

end Airing

end OnAir
