import OnAir.Proofs.Json.Presentation
import OnAir.Proofs.Rundown.RoundTrip

set_option autoImplicit false

namespace OnAir

open Json (Place Slot PresentsAll)

namespace Content

def slots : Content → List Slot
  | empty => [⟨"type", (· = .ofString "empty"), False⟩, ⟨"value", (· = .null), True⟩]
  | reference target =>
    [⟨"type", (· = .ofString "reference"), False⟩, ⟨"value", (· = .ofString target), False⟩]
  | inline bytes => [⟨"type", (· = .ofString "inline"), False⟩,
      ⟨"value", (· = .array (bytes.map fun byte => .ofNat byte.toNat)), False⟩]

def Presents (content : Content) : Json → Prop := Json.Presents content.slots

theorem presents_toJson (content : Content) : content.Presents content.toJson := by
  cases content with
  | empty => exact Json.presents_record (.given rfl (.omitted trivial .nil))
  | reference target => exact Json.presents_record (.given rfl (.given rfl .nil))
  | inline bytes => exact Json.presents_record (.given rfl (.given rfl .nil))

theorem ofJson?_record (place : Place) (members : List (String × Json)) :
    ofJson? place (.record members) =
      ((Json.record members).fields? ["type", "value"] 2).bind fun fields =>
        (fields.required? "type" (Json.choice? place Form.words)).bind fun form =>
          ofForm? form (fields.get? "value") := rfl

theorem ofJson?_of_presents (place : Place) {content : Content} {value : Json}
    (h : content.Presents value) : ofJson? place value = some content := by
  obtain ⟨members, -, -, rfl, -⟩ := id h
  have hnames : (content.slots.map Slot.name).Nodup := by cases content <;> simp [slots]
  obtain ⟨fields, hfields, found⟩ := Json.Presents.fields? h hnames 2
  rw [ofJson?_record]
  cases content with
  | empty =>
    simp only [slots, List.map, List.forall_mem_cons] at hfields found
    obtain ⟨form, value, -⟩ := found
    have hform : fields.required? "type" (Json.choice? place Form.words) = some .empty :=
      form.required?_written rfl
    rw [hfields, Option.bind_some, hform, Option.bind_some]
    cases value with
    | given hvalue hnull => rw [hvalue, hnull, ofForm?]
    | omitted hvalue _ => rw [hvalue, ofForm?]
  | reference target =>
    simp only [slots, List.map, List.forall_mem_cons] at hfields found
    obtain ⟨form, value, -⟩ := found
    have hform : fields.required? "type" (Json.choice? place Form.words) = some .reference :=
      form.required?_written rfl
    have hvalue : (fields.get? "value").bind Json.string? = some target :=
      value.required?_written (Json.string?_ofString target)
    rw [hfields, Option.bind_some, hform, Option.bind_some, ofForm?, hvalue, Option.map_some]
  | inline bytes =>
    simp only [slots, List.map, List.forall_mem_cons] at hfields found
    obtain ⟨form, value, -⟩ := found
    have hform : fields.required? "type" (Json.choice? place Form.words) = some .inline :=
      form.required?_written rfl
    have hvalue : (fields.get? "value").bind (Json.list? Json.uint8?) = some bytes :=
      value.required?_written (Json.list?_map Json.uint8?_ofNat bytes)
    rw [hfields, Option.bind_some, hform, Option.bind_some, ofForm?, hvalue, Option.map_some]

end Content

namespace Item

def slots (item : Item) : List Slot := [
  ⟨"id", (· = item.id.toJson), False⟩,
  ⟨"layer", (· = item.layer.toJson), False⟩,
  ⟨"expected_duration_ms", (· = .ofInt item.duration.toInt), False⟩,
  ⟨"infinite_mode", (· = item.reach.toJson), item.reach = .ownLine⟩,
  ⟨"content", item.content.Presents, item.content = .empty⟩]

def Presents (item : Item) : Json → Prop := Json.Presents item.slots

theorem presents_toJson (item : Item) : item.Presents item.toJson :=
  Json.presents_record (.given rfl (.given rfl (.given rfl (.given rfl
    (.given item.content.presents_toJson .nil)))))

theorem ofJson?_of_presents (place : Place) {item : Item} {value : Json}
    (h : item.Presents value) : ofJson? place value = some item := by
  obtain ⟨fields, hfields, found⟩ := Json.Presents.fields? h (by simp [slots]) 3
  simp only [slots, List.map, List.forall_mem_cons] at hfields found
  obtain ⟨id, layer, duration, reach, content, -⟩ := found
  have hcontent := content.defaulted? fun _ => Content.ofJson?_of_presents place
  simp [ofJson?, hfields, id.required?_written (Id.ofJson?_toJson _),
    layer.required?_written (Id.ofJson?_toJson _), duration.required?_written (Json.int64?_ofInt _),
    reach.defaulted?_written (Reach.ofJson?_toJson place _), hcontent]

end Item

namespace Line

def slots (line : Line) : List Slot := [
  ⟨"id", (· = line.id.toJson), False⟩,
  ⟨"title", (· = .ofString line.title), line.title = ""⟩,
  ⟨"expected_duration_ms", (· = .ofNat line.duration.toNat), line.duration = 0⟩,
  ⟨"items", PresentsAll Item.Presents line.items, line.items = []⟩]

def Presents (line : Line) : Json → Prop := Json.Presents line.slots

theorem presents_toJson (line : Line) : line.Presents line.toJson :=
  Json.presents_record (.given rfl (.given rfl (.given rfl
    (.given (Json.presentsAll_map Item.presents_toJson line.items) .nil))))

theorem ofJson?_of_presents (place : Place) {line : Line} {value : Json}
    (h : line.Presents value) : ofJson? place value = some line := by
  obtain ⟨fields, hfields, found⟩ := Json.Presents.fields? h (by simp [slots]) 1
  simp only [slots, List.map, List.forall_mem_cons] at hfields found
  obtain ⟨id, title, duration, items, -⟩ := found
  have hitems := items.defaulted? fun _ written =>
    written.list? fun _ _ _ => Item.ofJson?_of_presents place
  simp [ofJson?, hfields, id.required?_written (Id.ofJson?_toJson _),
    title.defaulted?_written (Json.string?_ofString _),
    duration.defaulted?_written (Json.uint64?_ofNat _), hitems]

end Line

namespace Segment

def slots (segment : Segment) : List Slot := [
  ⟨"id", (· = segment.id.toJson), False⟩,
  ⟨"name", (· = .ofString segment.name), segment.name = ""⟩,
  ⟨"lines", PresentsAll Line.Presents segment.lines, segment.lines = []⟩]

def Presents (segment : Segment) : Json → Prop := Json.Presents segment.slots

theorem presents_toJson (segment : Segment) : segment.Presents segment.toJson :=
  Json.presents_record (.given rfl (.given rfl
    (.given (Json.presentsAll_map Line.presents_toJson segment.lines) .nil)))

theorem ofJson?_of_presents {segment : Segment} {value : Json} (h : segment.Presents value) :
    ofJson? value = some segment := by
  obtain ⟨fields, hfields, found⟩ := Json.Presents.fields? h (by simp [slots]) 1
  simp only [slots, List.map, List.forall_mem_cons] at hfields found
  obtain ⟨id, name, lines, -⟩ := found
  have hlines := lines.defaulted? fun _ written =>
    written.list? fun _ _ _ => Line.ofJson?_of_presents .document
  simp [ofJson?, hfields, id.required?_written (Id.ofJson?_toJson _),
    name.defaulted?_written (Json.string?_ofString _), hlines]

end Segment

namespace Layer

def slots (layer : Layer) : List Slot := [
  ⟨"id", (· = layer.id.toJson), False⟩,
  ⟨"name", (· = .ofString layer.name), layer.name = ""⟩,
  ⟨"kind", (· = layer.kind.toJson), layer.kind = .other⟩]

def Presents (layer : Layer) : Json → Prop := Json.Presents layer.slots

theorem presents_toJson (layer : Layer) : layer.Presents layer.toJson :=
  Json.presents_record (.given rfl (.given rfl (.given rfl .nil)))

theorem ofJson?_of_presents {layer : Layer} {value : Json} (h : layer.Presents value) :
    ofJson? value = some layer := by
  obtain ⟨fields, hfields, found⟩ := Json.Presents.fields? h (by simp [slots]) 1
  simp only [slots, List.map, List.forall_mem_cons] at hfields found
  obtain ⟨id, name, kind, -⟩ := found
  simp [ofJson?, hfields, id.required?_written (Id.ofJson?_toJson _),
    name.defaulted?_written (Json.string?_ofString _),
    kind.defaulted?_written (LayerKind.ofJson?_toJson .document _)]

end Layer

namespace Rundown

def slots (rundown : Rundown) : List Slot := [
  ⟨"id", (· = rundown.id.toJson), False⟩,
  ⟨"name", (· = .ofString rundown.name), rundown.name = ""⟩,
  ⟨"active", (· = .bool rundown.active), rundown.active = false⟩,
  ⟨"source_layers", PresentsAll Layer.Presents rundown.layers, rundown.layers = []⟩,
  ⟨"segments", PresentsAll Segment.Presents rundown.segments, rundown.segments = []⟩]

def Presents (rundown : Rundown) : Json → Prop := Json.Presents rundown.slots

theorem presents_toJson (rundown : Rundown) : rundown.Presents rundown.toJson :=
  Json.presents_record (.given rfl (.given rfl (.given rfl
    (.given (Json.presentsAll_map Layer.presents_toJson rundown.layers)
      (.given (Json.presentsAll_map Segment.presents_toJson rundown.segments) .nil)))))

theorem ofJson?_of_presents {rundown : Rundown} {value : Json} (h : rundown.Presents value) :
    ofJson? value = some rundown := by
  obtain ⟨fields, hfields, found⟩ := Json.Presents.fields? h (by simp [slots]) 1
  simp only [slots, List.map, List.forall_mem_cons] at hfields found
  obtain ⟨id, name, active, layers, segments, -⟩ := found
  have hlayers := layers.defaulted? fun _ written =>
    written.list? fun _ _ _ => Layer.ofJson?_of_presents
  have hsegments := segments.defaulted? fun _ written =>
    written.list? fun _ _ _ => Segment.ofJson?_of_presents
  have hactive : fields.defaulted? "active" Json.bool? false = some rundown.active :=
    active.defaulted?_written rfl
  simp [ofJson?, hfields, id.required?_written (Id.ofJson?_toJson _),
    name.defaulted?_written (Json.string?_ofString _), hactive, hlayers, hsegments]

/-- However a rundown is written, it is read from any text of that, among others from the two
spellings. -/
theorem parse?_of_presents {rundown : Rundown} {value : Json} (h : rundown.Presents value) :
    (∀ text, Json.parse? text = some value → parse? text = some rundown) ∧
      (value.Proper → parse? value.toPrettyString = some rundown ∧
        parse? value.toCompactString = some rundown) := by
  have read (text : String) (ht : Json.parse? text = some value) : parse? text = some rundown := by
    rw [parse?, ht, Option.bind_some, ofJson?_of_presents h]
  exact ⟨read, fun proper =>
    ⟨read _ (Json.parse?_toPrettyString proper), read _ (Json.parse?_toCompactString proper)⟩⟩

def teaser : Rundown where
  id := ⟨"teaser"⟩
  name := "Teaser"
  active := false
  layers := [⟨⟨"sound"⟩, "", .audio⟩]
  segments := [⟨⟨"opening"⟩, "", [⟨⟨"welcome"⟩, "Welcome", 0, [
    ⟨⟨"jingle"⟩, ⟨"sound"⟩, 5000, .ownLine, .inline [0, 255]⟩]⟩]⟩]

def backwards (given others : List (String × Json)) : Json := .record (given ++ others).reverse

theorem presents_backwards {slots : List Slot} {given others : List (String × Json)}
    (fills : Json.Fills slots given) (unknown : ∀ m ∈ others, m.1 ∉ slots.map Slot.name) :
    Json.Presents slots (backwards given others) :=
  ⟨_, given, others, rfl, List.reverse_perm _, fills, unknown⟩

/-- The teaser with notes, without what is default, and backwards, so that the bytes of the jingle
stand before the word that says what they are. -/
def teaserDraft : Json :=
  let content := backwards
    [("type", .ofString "inline"), ("value", .array [.ofNat 0, .ofNat 255])]
    [("draft", .array [.null, .object [(none, .bool true)]])]
  let jingle := backwards
    [("id", .ofString "jingle"), ("layer", .ofString "sound"), ("expected_duration_ms", .ofInt 5000),
      ("content", content)] [("value", .text none)]
  let welcome := backwards
    [("id", .ofString "welcome"), ("title", .ofString "Welcome"), ("items", .array [jingle])] []
  let opening := backwards
    [("id", .ofString "opening"), ("lines", .array [welcome])] [("items", .null)]
  backwards
    [("id", .ofString "teaser"), ("name", .ofString "Teaser"),
      ("source_layers", .array [backwards [("id", .ofString "sound"), ("kind", .ofString "audio")] []]),
      ("segments", .array [opening])]
    [("author", .ofString "desk"), ("author", .null)]

theorem teaser_presents_teaserDraft : teaser.Presents teaserDraft := by
  refine presents_backwards (.given rfl (.given rfl (.omitted rfl (.given ⟨_, rfl, .cons ?layer .nil⟩
    (.given ⟨_, rfl, .cons ?segment .nil⟩ .nil))))) (by simp [slots])
  case layer =>
    exact presents_backwards (.given rfl (.omitted rfl (.given rfl .nil))) (by simp)
  case segment =>
    refine presents_backwards (.given rfl (.omitted rfl (.given ⟨_, rfl, .cons ?line .nil⟩ .nil)))
      (by simp [Segment.slots])
    refine presents_backwards (.given rfl (.given rfl (.omitted rfl
      (.given ⟨_, rfl, .cons ?item .nil⟩ .nil)))) (by simp)
    refine presents_backwards (.given rfl (.given rfl (.given rfl (.omitted rfl
      (.given ?content .nil))))) (by simp [Item.slots])
    exact presents_backwards (.given rfl (.given rfl .nil)) (by simp [Content.slots])

theorem proper_teaserDraft : teaserDraft.Proper := by
  simp [teaserDraft, backwards]

theorem parse?_teaserDraft :
    parse? teaserDraft.toPrettyString = some teaser ∧ parse? teaserDraft.toCompactString = some teaser := by
  obtain ⟨fromText, spelled⟩ := parse?_of_presents teaser_presents_teaserDraft
  have hcompact := Json.parse?_toCompactString proper_teaserDraft
  exact ⟨(spelled proper_teaserDraft).1, fromText _ hcompact⟩

end Rundown

end OnAir
