import Dotwork.Layout.Canvas

/-!
# Placing a row

A row is placed term by term, and the body of a group between its paddings. Two things can be in the way: more
dots than a layout may hold, which is found out before anything is placed, and, where the settings refuse them,
the first negative count or negated group. Storage for the dots, which is reserved before the first one is placed,
is taken to be there: that it runs out is left outside.
-/

namespace Dotwork

namespace Layout

/-- Why a row has no layout. -/
inductive Fault
  | negative (span : Span)
  | tooManyDots (count limit : Nat) (span : Span)
deriving DecidableEq

namespace Fault

/-- What a fault points at. -/
def span : Fault → Span
  | .negative span => span
  | .tooManyDots _ _ span => span

def message : Fault → String
  | .negative _ => "negative counts are not supported by the `reject` policy"
  | .tooManyDots count limit _ => s!"notation expands to {count} dots, more than the limit of {limit}"

def label : Fault → String
  | .negative _ => "negative count"
  | .tooManyDots .. => "element limit exceeded here"

def help : Fault → String
  | .negative _ => "set `negative_counts = \"mark\"` in the `[layout]` configuration section"
  | .tooManyDots .. => "raise `max_elements` in the `[layout]` configuration section"

end Fault

/-- The refusal of something negative, where the settings refuse it. -/
def refusal? (s : Settings) (negative : Option Span) : Option Fault :=
  match s.negatives with
  | .mark => none
  | .reject => negative.map .negative

/-- Places a row on a canvas, behind what is there. -/
def place (s : Settings) : Row → Canvas → Except Fault Canvas
  | .nil, k => .ok k
  | .cluster c join rest, k =>
    match refusal? s c.negativeSpan? with
    | some fault => .error fault
    | none => place s rest ((k.cluster s.spacing c).join s.spacing join rest)
  | .group h body join rest, k =>
    match refusal? s h.negativeSpan? with
    | some fault => .error fault
    | none =>
      match place s body (k.openGroup s.spacing h) with
      | .error fault => .error fault
      | .ok k => place s rest ((k.closeGroup s.spacing).join s.spacing join rest)

/-- The first term of a row with which the dots, `count` before it included, are more than `limit`. -/
def excess? (limit : Nat) : Nat → Row → Option Span
  | _, .nil => none
  | count, .cluster c _ rest =>
    let count := Word.add count c.magnitude
    if limit < count then some c.span else excess? limit count rest
  | count, .group h body _ rest =>
    let count := Word.add count body.dotCount
    if limit < count then some h.span else excess? limit count rest

/-- The layout of a row. -/
def ofRow (s : Settings) (row : Row) : Except Fault Layout :=
  if row.dotCount ≤ s.maxElements then
    match place s row .blank with
    | .ok k => .ok k.layout
    | .error fault => .error fault
  else .error (.tooManyDots row.dotCount s.maxElements ((excess? s.maxElements 0 row).getD default))

end Layout

end Dotwork
