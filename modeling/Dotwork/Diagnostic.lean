import Dotwork.Span

/-!
# Diagnostics

A diagnostic says what is wrong with a line of notation: a message, a code that classifies it, labels on the
spans concerned and, where there is one, a way to mend it. A report is the list of the diagnostics of one
line, in textual order.
-/

namespace Dotwork

namespace Diagnostic

/-- The stage of reading at which a problem shows. -/
inductive Phase
  | lexical
  | structural
deriving DecidableEq, Inhabited

def Phase.text : Phase → String
  | .lexical => "lexical"
  | .structural => "syntax"

/-- The classes of problems that a line of notation can have. -/
inductive Code
  | foreignGlyph
  | malformedInteger
  | integerOutOfRange
  | unexpectedToken
  | unbalancedParens
  | missingSeparator
  | trailingInput
  | nestingTooDeep
deriving DecidableEq, Inhabited

namespace Code

def text : Code → String
  | .foreignGlyph => "E001"
  | .malformedInteger => "E002"
  | .integerOutOfRange => "E003"
  | .unexpectedToken => "E100"
  | .unbalancedParens => "E101"
  | .missingSeparator => "E102"
  | .trailingInput => "E103"
  | .nestingTooDeep => "E104"

/-- What the class of problems has in common; it stands on the primary label. -/
def description : Code → String
  | .foreignGlyph => "unclassifiable glyph"
  | .malformedInteger => "malformed integer"
  | .integerOutOfRange => "integer out of range"
  | .unexpectedToken => "unexpected token"
  | .unbalancedParens => "unbalanced parentheses"
  | .missingSeparator => "missing separator"
  | .trailingInput => "trailing input"
  | .nestingTooDeep => "nesting too deep"

/-- A code belongs to the phase that finds its problems. -/
def phase : Code → Phase
  | .foreignGlyph | .malformedInteger | .integerOutOfRange => .lexical
  | .unexpectedToken | .unbalancedParens | .missingSeparator | .trailingInput | .nestingTooDeep => .structural

/-- All codes, in the order of their texts. -/
def all : List Code :=
  [.foreignGlyph, .malformedInteger, .integerOutOfRange, .unexpectedToken, .unbalancedParens,
    .missingSeparator, .trailingInput, .nestingTooDeep]

/-- The code that is written so. -/
def ofText? (s : String) : Option Code :=
  all.find? fun code => code.text == s

end Code

/-- A remark on a span of the line. The primary labels mark the problem, the others what it has to do with. -/
structure Label where
  span : Span
  message : String
  isPrimary : Bool
deriving DecidableEq, Inhabited

end Diagnostic

/-- One problem of a line of notation. -/
structure Diagnostic where
  message : String
  code : Option Diagnostic.Code := none
  labels : List Diagnostic.Label := []
  help : Option String := none
deriving DecidableEq, Inhabited

namespace Diagnostic

/-- Puts a primary label behind the labels there are. -/
def addPrimary (d : Diagnostic) (span : Span) (message : String) : Diagnostic :=
  { d with labels := d.labels ++ [⟨span, message, true⟩] }

/-- Puts a secondary label behind the labels there are. -/
def addSecondary (d : Diagnostic) (span : Span) (message : String) : Diagnostic :=
  { d with labels := d.labels ++ [⟨span, message, false⟩] }

def primary? (d : Diagnostic) : Option Label :=
  d.labels.find? (·.isPrimary)

def offset? (d : Diagnostic) : Option Nat :=
  d.primary?.map (·.span.start)

/-- The one-line text of a diagnostic: its code, if it has one, and its message. -/
def text (d : Diagnostic) : String :=
  match d.code with
  | some code => s!"error[{code.text}]: {d.message}"
  | none => s!"error: {d.message}"

/-- The diagnostics of one line, in textual order. -/
abbrev Report := List Diagnostic

namespace Report

/-- The one-line text of a report: its first diagnostic, and how many follow. -/
def text : Report → String
  | [] => ""
  | [d] => d.text
  | d :: rest => s!"{d.text} (+{rest.length} more)"

def code? (r : Report) : Option Code :=
  r.head?.bind (·.code)

def offset? (r : Report) : Option Nat :=
  r.head?.bind (·.offset?)

end Report

end Diagnostic

end Dotwork
