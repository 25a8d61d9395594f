import OnAir.Edit
import OnAir.Json.Magnitude
import OnAir.Rundown.Json

set_option autoImplicit false

namespace OnAir.Edit

open OnAir.Json (list? int64? uint64? bool? nullable?)

def toJson : Edit → Json
  | setItemDuration item duration =>
    tagged "set_item_duration" [("item", item.toJson), ("duration_ms", .ofInt duration.toInt)]
  | setItemReach item reach =>
    tagged "set_item_infinite_mode" [("item", item.toJson), ("mode", reach.toJson)]
  | setItemContent item content =>
    tagged "set_item_content" [("item", item.toJson), ("content", content.toJson)]
  | insertItem line item =>
    tagged "insert_item" [("line", line.toJson), ("item", item.toJson)]
  | removeItem item => tagged "remove_item" [("item", item.toJson)]
  | setLineDuration line duration =>
    tagged "set_line_duration" [("line", line.toJson), ("duration_ms", .ofNat duration.toNat)]
  | insertLine segment index line =>
    tagged "insert_line" [("segment", segment.toJson), ("index", .ofNat index.toNat),
      ("line", line.toJson)]
  | removeLine line => tagged "remove_line" [("line", line.toJson)]
  | moveLine line segment index =>
    tagged "move_line" [("line", line.toJson), ("segment", segment.toJson),
      ("index", .ofNat index.toNat)]
  | recompute start runToEnd =>
    tagged "recompute" [("from", start.elim .null Id.toJson), ("run_to_end", .bool runToEnd)]
where
  tagged (op : String) (members : List (String × Json)) : Json :=
    .record (("op", .ofString op) :: members)

def ofTagged? (op : String) (value : Json) : Option Edit :=
  match op with
  | "set_item_duration" => do
    let fields ← value.fields? ["item", "duration_ms"] 2
    return setItemDuration (← fields.required? "item" Id.ofJson?)
      (← fields.required? "duration_ms" int64?)
  | "set_item_infinite_mode" => do
    let fields ← value.fields? ["item", "mode"] 2
    return setItemReach (← fields.required? "item" Id.ofJson?)
      (← fields.required? "mode" (Reach.ofJson? .edit))
  | "set_item_content" => do
    let fields ← value.fields? ["item", "content"] 2
    return setItemContent (← fields.required? "item" Id.ofJson?)
      (← fields.required? "content" (Content.ofJson? .edit))
  | "insert_item" => do
    let fields ← value.fields? ["line", "item"] 2
    return insertItem (← fields.required? "line" Id.ofJson?)
      (← fields.required? "item" (Item.ofJson? .edit))
  | "remove_item" => do
    let fields ← value.fields? ["item"] 1
    return removeItem (← fields.required? "item" Id.ofJson?)
  | "set_line_duration" => do
    let fields ← value.fields? ["line", "duration_ms"] 2
    return setLineDuration (← fields.required? "line" Id.ofJson?)
      (← fields.required? "duration_ms" uint64?)
  | "insert_line" => do
    let fields ← value.fields? ["segment", "index", "line"] 3
    return insertLine (← fields.required? "segment" Id.ofJson?)
      (← fields.required? "index" uint64?) (← fields.required? "line" (Line.ofJson? .edit))
  | "remove_line" => do
    let fields ← value.fields? ["line"] 1
    return removeLine (← fields.required? "line" Id.ofJson?)
  | "move_line" => do
    let fields ← value.fields? ["line", "segment", "index"] 3
    return moveLine (← fields.required? "line" Id.ofJson?)
      (← fields.required? "segment" Id.ofJson?) (← fields.required? "index" uint64?)
  | "recompute" => do
    let fields ← value.fields? ["from", "run_to_end"] 0
    return recompute (← fields.defaulted? "from" (nullable? Id.ofJson?) none)
      (← fields.defaulted? "run_to_end" bool? false)
  | _ => none

def depthLimit : Nat := 126

/-- An edit is taken in whole, so all of it counts, also what no field reads. -/
def ofJson? (value : Json) : Option Edit :=
  if value.fits depthLimit then
    (value.tagged? "op").bind fun (op, rest) => ofTagged? op rest
  else none

def printScript (edits : List Edit) : String := (Json.array (edits.map toJson)).toCompactString

def parseScript? (s : String) : Option (List Edit) := (Json.parse? s).bind (list? ofJson?)

end OnAir.Edit
