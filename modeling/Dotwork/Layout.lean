import Dotwork.Grid
import Dotwork.Row

/-!
# Layouts

A layout is a row placed on the grid: its dots as elements in drawing order, one boundary for each group with
the parent in front of its children, one marker for each plus join, and the width of the whole. Elements and
groups are numbered from zero in the order of the text.
-/

namespace Dotwork

namespace Layout

structure GroupId where
  index : Nat
deriving DecidableEq, Inhabited

def GroupId.text (id : GroupId) : String :=
  s!"g{id.index}"

structure ElementId where
  index : Nat
deriving DecidableEq, Inhabited

def ElementId.text (id : ElementId) : String :=
  s!"e{id.index}"

/-- One dot on the grid; `path` holds the groups around it, outermost first. -/
structure Element where
  id : ElementId
  position : Grid.Point
  symbol : Symbol
  sign : Sign
  path : List GroupId
  source : Span
deriving DecidableEq

/-- The group that directly holds an element. -/
def Element.innermost? (e : Element) : Option GroupId :=
  e.path.getLast?

/-- The numbers of the elements from `start` up to, not including, `stop`. -/
structure ElementRange where
  start : Nat
  stop : Nat
deriving DecidableEq, Inhabited

/-- One group on the grid: the group around it, how many groups it is the last of, what stands in front of it,
    and the columns and elements that it spans. -/
structure Boundary where
  id : GroupId
  parent : Option GroupId
  depth : Nat
  sign : Option Sign
  magnitude : Option Int
  columns : Grid.Columns
  elements : ElementRange
  source : Span
deriving DecidableEq

/-- A boundary around no dots. -/
def Boundary.isEmpty (b : Boundary) : Bool :=
  b.elements.start == b.elements.stop

/-- The marker of a plus join: the column in the middle of its gap, and the group that directly holds it. -/
structure Marker where
  column : Nat
  depth : Nat
  group : Option GroupId
  source : Span
deriving DecidableEq

end Layout

/-- A row placed on the grid. -/
structure Layout where
  elements : Array Layout.Element
  groups : Array Layout.Boundary
  unions : Array Layout.Marker
  width : Nat
deriving DecidableEq

namespace Layout

/-- The greatest nesting of groups. -/
def depth (l : Layout) : Nat :=
  l.groups.foldl (fun deepest b => max deepest b.depth) 0

/-- A layout is empty when it shows neither dots nor groups. -/
def isEmpty (l : Layout) : Bool :=
  l.elements.isEmpty && l.groups.isEmpty

def group? (l : Layout) (id : GroupId) : Option Boundary :=
  l.groups.find? (·.id == id)

/-- The dots in a group, those of the groups inside it included; an unknown group has none. -/
def elementsIn (l : Layout) (id : GroupId) : List Element :=
  match l.group? id with
  | some b => (l.elements.extract b.elements.start b.elements.stop).toList
  | none => []

end Layout

end Dotwork
