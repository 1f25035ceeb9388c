import Dotwork.Symbol
import Dotwork.Word

/-!
# Tokens

The words of the notation. An integer is never negative: a minus is a token of its own, and what it does is
settled where it stands in a row.
-/

namespace Dotwork

/-- One word of the notation. -/
inductive Token
  | integer (value : Nat)
  | symbol (s : Symbol)
  | plus
  | minus
  | leftParen
  | rightParen
  | blank
deriving DecidableEq

namespace Token

/-- The glyphs of a token; a blank is written as one space. -/
def chars : Token → List Char
  | .integer n => Nat.toDigits 10 n
  | .symbol s => [s.glyph]
  | .plus => ['+']
  | .minus => ['-']
  | .leftParen => ['(']
  | .rightParen => [')']
  | .blank => [' ']

def text (t : Token) : String :=
  String.ofList t.chars

/-- A blank separates terms, or says nothing. -/
def isBlank : Token → Bool
  | .blank => true
  | _ => false

/-- The tokens that a term can begin with. -/
def startsTerm : Token → Bool
  | .integer _ | .plus | .minus | .leftParen => true
  | .symbol _ | .rightParen | .blank => false

end Token

end Dotwork
