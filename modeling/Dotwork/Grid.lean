import Dotwork.Word

/-!
# The grid

Dots stand on an integer grid: a column from left to right, and the number of groups around the dot as its
depth. Columns are given out from left to right by a cursor, which stops at the greatest word.
-/

namespace Dotwork.Grid

structure Point where
  column : Nat
  depth : Nat
deriving DecidableEq, Inhabited

/-- The columns from `start` up to, not including, `stop`. -/
structure Columns where
  start : Nat
  stop : Nat
deriving DecidableEq, Inhabited

namespace Columns

/-- Bounds in the wrong order: the range would stop left of its start. -/
structure Reversed where
  start : Nat
  stop : Nat
deriving DecidableEq

def Reversed.message (r : Reversed) : String :=
  s!"column range end {r.stop} before start {r.start}"

/-- The range with the given bounds, which have to be in order. -/
def ofBounds (start stop : Nat) : Except Reversed Columns :=
  if start ≤ stop then .ok ⟨start, stop⟩ else .error ⟨start, stop⟩

def width (r : Columns) : Nat :=
  r.stop - r.start

/-- The column in the middle, the right one of two; an empty range has its start. -/
def middle (r : Columns) : Nat :=
  r.start + r.width / 2

theorem start_le_middle (r : Columns) : r.start ≤ r.middle :=
  Nat.le_add_right _ _

theorem middle_le_stop {r : Columns} (h : r.start ≤ r.stop) : r.middle ≤ r.stop := by
  unfold middle width
  omega

def contains (r : Columns) (column : Nat) : Bool :=
  r.start ≤ column && column < r.stop

/-- Whether all of another range lies between the bounds of this one. -/
def encloses (r other : Columns) : Bool :=
  r.start ≤ other.start && other.stop ≤ r.stop

end Columns

/-- The next free column. -/
structure Cursor where
  position : Nat
deriving DecidableEq, Inhabited

namespace Cursor

def start : Cursor :=
  ⟨0⟩

def advance (c : Cursor) (columns : Nat) : Cursor :=
  ⟨Word.add c.position columns⟩

theorem le_advance {c : Cursor} (h : c.position ≤ Word.greatest) (columns : Nat) :
    c.position ≤ (c.advance columns).position :=
  Word.le_add h

/-- The next column, and the cursor behind it. -/
def take (c : Cursor) : Nat × Cursor :=
  (c.position, c.advance 1)

/-- The next columns, left empty, and the cursor behind them. -/
def skip (c : Cursor) (columns : Nat) : Columns × Cursor :=
  (⟨c.position, (c.advance columns).position⟩, c.advance columns)

end Cursor

end Dotwork.Grid
