import Dotwork.Glyph.Ranges

/-! Blank glyphs: the code points with the Unicode property White_Space. -/

namespace Dotwork.Glyph

/-- The code points with the property White_Space. -/
def blanks : Ranges := ⟨[
  (0x0009, 0x000D), (0x0020, 0x0020), (0x0085, 0x0085), (0x00A0, 0x00A0), (0x1680, 0x1680), (0x2000, 0x200A),
  (0x2028, 0x2029), (0x202F, 0x202F), (0x205F, 0x205F), (0x3000, 0x3000)]⟩

/-- A blank glyph separates terms and labels no dot. -/
def isBlank (c : Char) : Bool :=
  blanks.contains c

end Dotwork.Glyph
