import Dotwork.Problem
import Dotwork.Row.Reader
import Dotwork.Row.Text
import Dotwork.Token.Lexeme

/-!
# From a line to its row, its canonical text and its layout

The three readings of a line of notation. Lexical faults are reported before the structure is looked at.
-/

namespace Dotwork

namespace Row

/-- The row of a line, or the report on it; at most `limit` groups may be open at once. -/
def ofLine (limit : Nat) (line : String) : Except Diagnostic.Report Row :=
  match Token.ofLine line with
  | .error report => .error report
  | .ok tokens => (ofTokens limit tokens).mapError fun fault => [fault.diagnostic tokens]

def read (s : Settings) (line : String) : Except Problem Row :=
  (ofLine s.maxDepth line).mapError .reading

/-- The canonical text of a line: that of its row. -/
def canonical (s : Settings) (line : String) : Except Problem String :=
  (read s line).map text

end Row

namespace Layout

def ofLine (s : Settings) (line : String) : Except Problem Layout :=
  match Row.read s line with
  | .error problem => .error problem
  | .ok row => (ofRow s row).mapError .placing

end Layout

end Dotwork
