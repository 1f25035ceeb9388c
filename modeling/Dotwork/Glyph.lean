import Dotwork.Glyph.Blank
import Dotwork.Glyph.Modifier
import Dotwork.Glyph.Numeral

/-!
# Glyphs

Every glyph of a line of notation is of exactly one kind, and the kind alone decides which token it can be
part of. Digits, signs and parentheses are the notation's own ASCII glyphs; of the rest, what neither
separates nor stands for itself is foreign.
-/

namespace Dotwork.Glyph

/-- What a glyph is to the notation. -/
inductive Kind
  | digit
  | sign
  | paren
  | blank
  | symbol
  | foreign
deriving DecidableEq, Inhabited

/-- A control character, general category Cc. -/
def isControl (c : Char) : Bool :=
  c.toNat ≤ 0x1F || (0x7F ≤ c.toNat && c.toNat ≤ 0x9F)

/-- A foreign glyph is neither part of the notation nor fit to label a dot: it is a control character, has no
    width of its own, or would read as a number. -/
def isForeign (c : Char) : Bool :=
  isControl c || isZeroWidthModifier c || isForeignNumeral c

/-- The kind of a glyph; a control character that separates, such as a tab, is blank. -/
def kind (c : Char) : Kind :=
  if c.isDigit then .digit
  else if c = '+' ∨ c = '-' then .sign
  else if c = '(' ∨ c = ')' then .paren
  else if isBlank c then .blank
  else if isForeign c then .foreign
  else .symbol

theorem kind_eq_digit_iff {c : Char} : kind c = .digit ↔ c.isDigit = true := by
  unfold kind
  by_cases h : c.isDigit
  · simp [h]
  · simp only [h, Bool.false_eq_true, if_false, iff_false]
    split
    · simp
    · split
      · simp
      · split
        · simp
        · split <;> simp

end Dotwork.Glyph
