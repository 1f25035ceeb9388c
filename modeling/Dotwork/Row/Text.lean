import Dotwork.Decimal
import Dotwork.Row

/-!
# The canonical text of a row

Every row has one text: counts and magnitudes in decimal, one space for a space join, one plus for a plus
join, nothing where two terms touch. The join behind the last term of a row ties it to nothing and is left out.
-/

namespace Dotwork

/-- The text of a cluster: its count and its symbol. -/
def Cluster.chars (c : Cluster) : List Char :=
  Decimal.chars c.count ++ [c.symbol.glyph]

/-- The text in front of the parentheses of a group: its sign and its magnitude, where it has them. -/
def Head.chars (h : Head) : List Char :=
  (match h.sign with
    | some s => [s.value.char]
    | none => []) ++
  (match h.magnitude with
    | some m => Decimal.chars m.value
    | none => [])

namespace Row

/-- The text of the join in front of the rest of a row. -/
def joinChars (join : Option (Located Join)) (rest : Row) : List Char :=
  if rest.isEmpty then []
  else
    match join with
    | some j => j.value.chars
    | none => []

/-- The canonical text of a row, as glyphs. -/
def chars : Row → List Char
  | .nil => []
  | .cluster c join rest => c.chars ++ joinChars join rest ++ rest.chars
  | .group h body join rest => h.chars ++ '(' :: body.chars ++ ')' :: joinChars join rest ++ rest.chars

/-- The canonical text of a row. -/
def text (row : Row) : String :=
  String.ofList row.chars

end Row

/-- The canonical text of a term. -/
def Term.text (t : Term) : String :=
  (Row.cons ⟨t, none⟩ .nil).text

end Dotwork
