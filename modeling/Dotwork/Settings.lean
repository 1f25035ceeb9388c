/-!
# Settings

What a user may choose: how deep groups nest, how wide the gaps of a layout are, how many dots it may hold,
and whether negative counts are welcome.
-/

namespace Dotwork

/-- The widths of what is not a dot, in columns. -/
structure Spacing where
  /-- Between two terms with a space join. -/
  spaceGap : Nat := 1
  /-- Between two terms with a plus join; the marker stands in the middle. -/
  unionGap : Nat := 3
  /-- On either side of the body of a group. -/
  groupPadding : Nat := 1
  /-- In place of a cluster of no dots. -/
  zeroWidth : Nat := 1
deriving DecidableEq, Inhabited

/-- What to do about negative counts and negated groups. -/
inductive NegativePolicy
  /-- Place them, and mark them with their sign. -/
  | mark
  /-- Refuse the row. -/
  | reject
deriving DecidableEq, Inhabited

/-- All that a user may choose. -/
structure Settings where
  /-- How many groups may be open at once. -/
  maxDepth : Nat := 64
  spacing : Spacing := {}
  /-- How many dots a layout may hold. -/
  maxElements : Nat := 100000
  negatives : NegativePolicy := .mark
deriving DecidableEq

instance : Inhabited Settings := ⟨{}⟩

end Dotwork
