import Dotwork.Json
import Dotwork.Row

/-! The JSON form of a row, with the places of all its parts. -/

namespace Dotwork

/-- A span as an object of its two offsets. -/
def Span.json (s : Span) : Json :=
  .object [("start", .ofNat s.start), ("end", .ofNat s.stop)]

def Located.json {α : Type} (value : α → Json) (x : Located α) : Json :=
  .object [("value", value x.value), ("span", x.span.json)]

def Sign.json : Sign → Json
  | .plus => .string "Plus"
  | .minus => .string "Minus"

def Join.json : Join → Json
  | .space => .string "Space"
  | .plus => .string "Plus"

def Symbol.json (s : Symbol) : Json :=
  .string (String.singleton s.glyph)

/-- A cluster without its place. -/
def Cluster.json (c : Cluster) : Json :=
  .object [("count", .integer c.count), ("symbol", c.symbol.json)]

/-- An entry: its term with its place, and the join behind it. -/
def Entry.jsonOf (term : Json) (span : Span) (join : Option (Located Join)) : Json :=
  .object [("term", (Located.mk term span).json id), ("separator", .ofOption (join.map (·.json Join.json)))]

namespace Row

/-- A row as an object that holds the list of its entries. -/
def jsonOf (entries : List Json) : Json :=
  .object [("entries", .array entries)]

def entriesJson : Row → List Json
  | .nil => []
  | .cluster c join rest => Entry.jsonOf (.object [("Cluster", c.json)]) c.span join :: rest.entriesJson
  | .group h body join rest =>
    let body := Located.json id ⟨.object [("body", jsonOf body.entriesJson)], h.parens⟩
    let group := Json.object [
      ("sign", .ofOption (h.sign.map (·.json Sign.json))),
      ("magnitude", .ofOption (h.magnitude.map (·.json Json.integer))),
      ("group", body)]
    Entry.jsonOf (.object [("Group", group)]) h.span join :: rest.entriesJson

/-- The JSON form of the row of a line. -/
def json (row : Row) : Json :=
  .object [("body", jsonOf row.entriesJson)]

end Row

end Dotwork
