import Dotwork.Layout
import Dotwork.Row.Json

/-!
# The JSON form of a layout

Elements in drawing order, boundaries under their numbers in the order of the text, markers, and the width.
-/

namespace Dotwork

/-- A range of columns as an object of its bounds. -/
def Grid.Columns.json (r : Grid.Columns) : Json :=
  .object [("start", .ofNat r.start), ("end", .ofNat r.stop)]

def Grid.Point.json (p : Grid.Point) : Json :=
  .object [("column", .ofNat p.column), ("depth", .ofNat p.depth)]

namespace Layout

def GroupId.json (id : GroupId) : Json :=
  .ofNat id.index

def ElementId.json (id : ElementId) : Json :=
  .ofNat id.index

def Element.json (e : Element) : Json :=
  .object [
    ("id", e.id.json),
    ("position", e.position.json),
    ("symbol", e.symbol.json),
    ("sign", e.sign.json),
    ("group_path", .array (e.path.map GroupId.json)),
    ("source", e.source.json)]

def Boundary.json (b : Boundary) : Json :=
  .object [
    ("id", b.id.json),
    ("parent", .ofOption (b.parent.map GroupId.json)),
    ("depth", .ofNat b.depth),
    ("sign", .ofOption (b.sign.map Sign.json)),
    ("magnitude", .ofOption (b.magnitude.map Json.integer)),
    ("columns", b.columns.json),
    ("elements", .object [("start", .ofNat b.elements.start), ("end", .ofNat b.elements.stop)]),
    ("source", b.source.json)]

def Marker.json (m : Marker) : Json :=
  .object [
    ("column", .ofNat m.column),
    ("depth", .ofNat m.depth),
    ("group", .ofOption (m.group.map GroupId.json)),
    ("source", m.source.json)]

def json (l : Layout) : Json :=
  .object [
    ("elements", .array (l.elements.toList.map Element.json)),
    ("groups", .object (l.groups.toList.map fun b => (toString b.id.index, b.json))),
    ("unions", .array (l.unions.toList.map Marker.json)),
    ("width", .ofNat l.width)]

/-- The text of a layout: its JSON form with one entry on a line. -/
def text (l : Layout) : String :=
  l.json.tall

end Layout

end Dotwork
