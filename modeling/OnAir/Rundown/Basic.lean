import OnAir.IdMap
import OnAir.Item

set_option autoImplicit false

namespace OnAir

inductive LayerKind where
  | graphics | camera | vt | audio | script | lights | other
  deriving DecidableEq, Repr

structure Layer where
  id : Id .layer
  name : String
  kind : LayerKind
  deriving DecidableEq, Repr

/-- One step of the show, with its planned time on air in milliseconds. -/
structure Line where
  id : Id .line
  title : String
  duration : UInt64
  items : List Item
  deriving DecidableEq, Repr

structure Segment where
  id : Id .segment
  name : String
  lines : List Line
  deriving DecidableEq, Repr

/-- Identifiers may repeat here; `Rundown.order` is where that is refused. -/
structure Rundown where
  id : Id .rundown
  name : String
  active : Bool
  layers : List Layer
  segments : List Segment
  deriving DecidableEq, Repr

structure Spot where
  segment : Id .segment
  line : Line
  deriving DecidableEq, Repr

namespace Line

def itemsFor (line : Line) (layer : Id .layer) : List Item :=
  line.items.filter fun item => decide (item.layer = layer)

/-- The items that a line puts on its layers. Of two on one layer, the later takes the place of the
other. -/
def declared (line : Line) : IdMap .layer Item :=
  .ofList (line.items.map fun item => (item.layer, item))

def declared? (line : Line) (layer : Id .layer) : Option Item := line.declared.get? layer

def item? (line : Line) (id : Id .item) : Option Item :=
  line.items.find? fun item => decide (item.id = id)

def check (layers : List (Id .layer)) (line : Line) : Except Fault Unit :=
  line.items.forM (Item.check layers)

end Line

def Segment.spots (segment : Segment) : List Spot := segment.lines.map (Spot.mk segment.id)

namespace Rundown

def spots (rundown : Rundown) : List Spot := rundown.segments.flatMap Segment.spots

def lines (rundown : Rundown) : List Line := rundown.segments.flatMap Segment.lines

def layerIds (rundown : Rundown) : List (Id .layer) := rundown.layers.map Layer.id

def layer? (rundown : Rundown) (id : Id .layer) : Option Layer :=
  rundown.layers.find? fun layer => decide (layer.id = id)

def segment? (rundown : Rundown) (id : Id .segment) : Option Segment :=
  rundown.segments.find? fun segment => decide (segment.id = id)

def line? (rundown : Rundown) (id : Id .line) : Option Line :=
  rundown.lines.find? fun line => decide (line.id = id)

/-- The first item with an identifier, and the line that owns it. -/
def item? (rundown : Rundown) (id : Id .item) : Option (Line × Item) :=
  rundown.lines.findSome? fun line => (line.item? id).map (line, ·)

theorem spots_map_line (rundown : Rundown) : rundown.spots.map Spot.line = rundown.lines := by
  simp only [spots, lines, List.map_flatMap, Segment.spots, List.map_map, Function.comp_def,
    List.map_id']

end Rundown

end OnAir
