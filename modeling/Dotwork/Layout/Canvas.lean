import Dotwork.Layout
import Dotwork.Settings

/-!
# The canvas

A canvas is a layout in the making. It is filled from left to right: dots are put down, gaps are skipped,
groups are opened and closed again. An open group has its boundary already, so that boundaries stay in the
order of the text; closing the group extends that boundary to what came in between.
-/

namespace Dotwork.Layout

/-- A layout in the making: the next free column, what is placed so far, and the open groups, outermost first. -/
structure Canvas where
  cursor : Grid.Cursor
  elements : Array Element
  groups : Array Boundary
  unions : Array Marker
  path : List GroupId
deriving DecidableEq

namespace Canvas

def blank : Canvas :=
  ⟨.start, #[], #[], #[], []⟩

def skip (columns : Nat) (k : Canvas) : Canvas :=
  { k with cursor := (k.cursor.skip columns).2 }

def dot (c : Cluster) (k : Canvas) : Canvas :=
  let (column, cursor) := k.cursor.take
  let position : Grid.Point := ⟨column, k.path.length⟩
  let element : Element := ⟨⟨k.elements.size⟩, position, c.symbol, c.sign, k.path, c.span⟩
  { k with cursor, elements := k.elements.push element }

/-- Puts down as many dots of a cluster. -/
def dots (c : Cluster) : Nat → Canvas → Canvas
  | 0, k => k
  | n + 1, k => dots c n (k.dot c)

/-- Places a cluster; one of no dots takes up a width of its own. -/
def cluster (s : Spacing) (c : Cluster) (k : Canvas) : Canvas :=
  if c.magnitude = 0 then k.skip s.zeroWidth else k.dots c c.magnitude

/-- Skips the gap of a plus join and marks its middle. -/
def union (s : Spacing) (source : Span) (k : Canvas) : Canvas :=
  let (gap, cursor) := k.cursor.skip s.unionGap
  { k with cursor, unions := k.unions.push ⟨gap.middle, k.path.length, k.path.getLast?, source⟩ }

/-- Places the join in front of the rest of a row; with nothing behind it a join ties nothing. -/
def join (s : Spacing) (join : Option (Located Join)) (rest : Row) (k : Canvas) : Canvas :=
  if rest.isEmpty then k
  else
    match join with
    | none => k
    | some ⟨.space, _⟩ => k.skip s.spaceGap
    | some ⟨.plus, source⟩ => k.union s source

/-- Opens a group: its boundary is that of an empty group, up to the padding. -/
def openGroup (s : Spacing) (h : Head) (k : Canvas) : Canvas :=
  let id : GroupId := ⟨k.groups.size⟩
  let column := k.cursor.position
  let boundary : Boundary := {
    id
    parent := k.path.getLast?
    depth := k.path.length + 1
    sign := h.sign.map Located.value
    magnitude := h.magnitude.map Located.value
    columns := ⟨column, column⟩
    elements := ⟨k.elements.size, k.elements.size⟩
    source := h.span }
  { k.skip s.groupPadding with groups := k.groups.push boundary, path := k.path ++ [id] }

/-- Extends a boundary to what lies in front of a column and an element. -/
def extend (column element : Nat) (b : Boundary) : Boundary :=
  { b with columns := ⟨b.columns.start, column⟩, elements := ⟨b.elements.start, element⟩ }

/-- Closes the innermost group behind its padding. -/
def closeGroup (s : Spacing) (k : Canvas) : Canvas :=
  let cursor := k.cursor.advance s.groupPadding
  match k.path.getLast? with
  | none => { k with cursor }
  | some id =>
    { k with
      cursor
      groups := k.groups.modify id.index (extend cursor.position k.elements.size)
      path := k.path.dropLast }

def layout (k : Canvas) : Layout :=
  ⟨k.elements, k.groups, k.unions, k.cursor.position⟩

end Canvas

end Dotwork.Layout
