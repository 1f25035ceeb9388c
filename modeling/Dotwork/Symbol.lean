import Dotwork.Glyph

/-!
# Symbols

A symbol is a glyph that may label dots. Whether a glyph is one, and why not, is settled by its kind.
-/

namespace Dotwork

/-- A glyph of the kind that labels dots. -/
structure Symbol where
  glyph : Char
  kind_eq : Glyph.kind glyph = .symbol
deriving DecidableEq

namespace Symbol

/-- Why a glyph cannot label a dot. -/
inductive Fault
  | reserved (c : Char)
  | blank
  | foreign (c : Char)
deriving DecidableEq

/-- A code point in upper-case hexadecimal, with zeros in front up to four digits. -/
def codePoint (c : Char) : String :=
  let digits := (Nat.toDigits 16 c.toNat).map Char.toUpper
  String.ofList (List.replicate (4 - digits.length) '0' ++ digits)

def Fault.message : Fault → String
  | .reserved c => s!"`{c}` is reserved by the notation and cannot label a dot"
  | .blank => "whitespace cannot label a dot"
  | .foreign c => s!"U+{codePoint c} cannot be classified as a symbol"

/-- The symbol of a glyph, or why it has none. -/
def ofGlyph (c : Char) : Except Fault Symbol :=
  match h : Glyph.kind c with
  | .symbol => .ok ⟨c, h⟩
  | .blank => .error .blank
  | .foreign => .error (.foreign c)
  | .digit | .sign | .paren => .error (.reserved c)

theorem ofGlyph_glyph (s : Symbol) : ofGlyph s.glyph = .ok s := by
  obtain ⟨c, h⟩ := s
  unfold ofGlyph
  split <;> simp_all

theorem ofGlyph_eq_ok_iff {c : Char} {s : Symbol} : ofGlyph c = .ok s ↔ s.glyph = c := by
  refine ⟨fun h => ?_, fun h => h ▸ ofGlyph_glyph s⟩
  unfold ofGlyph at h
  split at h <;> simp at h
  exact h ▸ rfl

end Symbol

end Dotwork
