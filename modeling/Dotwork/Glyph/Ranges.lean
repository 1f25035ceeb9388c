/-!
# Ranges of code points

A property of glyphs that a standard lists is kept as the ranges of code points that have it.
-/

namespace Dotwork.Glyph

/-- The ranges of code points, first and last included, that make up a listed property. -/
structure Ranges where
  bounds : List (Nat × Nat)

/-- A glyph has the property when one of the ranges holds its code point. -/
def Ranges.contains (r : Ranges) (c : Char) : Bool :=
  r.bounds.any fun (first, last) => first ≤ c.toNat && c.toNat ≤ last

end Dotwork.Glyph
