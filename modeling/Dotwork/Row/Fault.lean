import Dotwork.Diagnostic
import Dotwork.Token

/-!
# Structural faults

Tokens that do not make up a row have one fault: a cause, and the tokens that were read in vain when it showed.
The diagnostic follows from the two. It marks those tokens, without blanks at either edge, or, where nothing
was read in vain, the token that could not be read; at the end of a line it marks the last token.
-/

namespace Dotwork.Row

namespace Fault

/-- Why a list of tokens is no row. -/
inductive Cause
  /-- Signs and then a symbol, without a count. -/
  | countMissing
  /-- A cluster with a minus and the count zero. -/
  | zeroNegated
  /-- A cluster with a plus as its sign. -/
  | plusOnCluster
  /-- A cluster with two signs. -/
  | twoSignsOnCluster
  /-- A group with a second minus and no magnitude. -/
  | magnitudeMissing
  /-- A count with neither a symbol nor a parenthesis behind it. -/
  | countAlone
  /-- A sign with neither a count nor a parenthesis behind it. -/
  | signAlone
  /-- A group inside as many groups as may be open. -/
  | tooDeep
  /-- A group that is open at the end of the line. -/
  | groupOpen
  /-- A token that neither continues nor closes the group opened at the span. -/
  | strayInGroup (opened : Span)
  /-- A join without a term behind it. -/
  | termMissing
  /-- A term that touches the cluster at the span. -/
  | joinMissing (previous : Span)
  /-- A closing parenthesis outside every group. -/
  | strayClose
  /-- A token outside every group that does not continue the row. -/
  | trailing
deriving DecidableEq

namespace Cause

def code : Cause → Diagnostic.Code
  | .countMissing | .zeroNegated | .plusOnCluster | .twoSignsOnCluster | .magnitudeMissing | .countAlone
  | .signAlone | .strayInGroup _ | .termMissing => .unexpectedToken
  | .tooDeep => .nestingTooDeep
  | .groupOpen | .strayClose => .unbalancedParens
  | .joinMissing _ => .missingSeparator
  | .trailing => .trailingInput

def message : Cause → String
  | .countMissing => "expected a count before the symbol"
  | .zeroNegated => "a negative count cannot be zero"
  | .plusOnCluster => "a cluster count cannot carry a `+` sign"
  | .twoSignsOnCluster => "a cluster count takes at most one sign"
  | .magnitudeMissing => "expected a count after `-`"
  | .countAlone => "expected a symbol or `(` after the count"
  | .signAlone => "expected a count or `(` after the sign"
  | .tooDeep => "groups are nested too deeply"
  | .groupOpen => "this group is never closed"
  | .strayInGroup _ => "expected `)` to close the group"
  | .termMissing => "expected a term after the separator"
  | .joinMissing _ => "missing separator before this term"
  | .strayClose => "unmatched `)`"
  | .trailing => "unexpected input after the last term"

/-- How to mend a structural fault, where there is one way. -/
def help? : Cause → Option String
  | .countMissing => some "write `1•` for a single dot"
  | .zeroNegated => some "write `0` without a sign"
  | .plusOnCluster => some "write the count without a sign"
  | .magnitudeMissing => some "write `--3(…)` to negate a magnitude"
  | .countAlone => some "write `3•` for three dots or `3(…)` for a scaled group"
  | .tooDeep => some "raise `max_depth` in the `[parser]` configuration section"
  | .groupOpen => some "add a closing `)`"
  | .joinMissing _ => some "separate clusters with whitespace (`1• 2★`) or `+` (`1•+2★`)"
  | .strayClose => some "remove it or add a matching `(` before it"
  | .trailing => some "a symbol needs a count in front of it, as in `1•`"
  | .twoSignsOnCluster | .signAlone | .strayInGroup _ | .termMissing => none

/-- The secondary labels: what else of the line the fault has to do with. -/
def related : Cause → List Diagnostic.Label
  | .strayInGroup opened => [⟨opened, "group opened here", false⟩]
  | .joinMissing previous => [⟨previous, "previous term ends here", false⟩]
  | _ => []

end Cause

end Fault

/-- A cause with the positions of the tokens read in vain, from `start` up to, not including, `stop`. -/
structure Fault where
  cause : Fault.Cause
  start : Nat
  stop : Nat
deriving DecidableEq

namespace Fault

/-- The span of the first token that is not blank, or of the first token where all are. -/
def edge? (tokens : List (Located Token)) : Option Span :=
  (tokens.find? (!·.value.isBlank) <|> tokens.head?).map (·.span)

/-- The span that the primary label marks. -/
def span (f : Fault) (tokens : List (Located Token)) : Span :=
  let vain := (tokens.take f.stop).drop f.start
  match edge? vain, edge? vain.reverse with
  | some first, some last => first.union last
  | _, _ =>
    match tokens[f.stop]? with
    | some t => t.span
    | none => (edge? tokens.reverse).getD default

def diagnostic (f : Fault) (tokens : List (Located Token)) : Diagnostic where
  message := f.cause.message
  code := some f.cause.code
  labels := ⟨f.span tokens, f.cause.code.description, true⟩ :: f.cause.related
  help := f.cause.help?

end Fault

end Dotwork.Row
