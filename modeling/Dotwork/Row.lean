import Dotwork.Span
import Dotwork.Symbol
import Dotwork.Word

/-!
# Rows

A row is what a line of notation says: terms from left to right, each a cluster of equal dots or a group in
parentheses that holds a row again. The join behind a term tells how the next term stands to it.

A row is one inductive type whose cases put a term in front of the rest of the row, so that a function on rows
is one recursion over the body of a group and over what follows it. `Row.toList` and `Row.ofList` show it as a
list of entries.
-/

namespace Dotwork

inductive Sign
  | plus
  | minus
deriving DecidableEq, Inhabited

namespace Sign

/-- The dots of a negative count are minus dots, all others plus dots. -/
def ofCount (count : Int) : Sign :=
  if count < 0 then .minus else .plus

def char : Sign → Char
  | .plus => '+'
  | .minus => '-'

end Sign

/-- How a term is tied to the next one, where the two do not just touch. -/
inductive Join
  | space
  | plus
deriving DecidableEq, Inhabited

namespace Join

def chars : Join → List Char
  | .space => [' ']
  | .plus => ['+']

end Join

/-- Equal dots with a signed count. A negative count stands for as many dots of the other sign, and a count of
    zero for none. -/
structure Cluster where
  count : Int
  symbol : Symbol
  span : Span
deriving DecidableEq

namespace Cluster

/-- The number of dots. -/
def magnitude (c : Cluster) : Nat :=
  c.count.natAbs

def sign (c : Cluster) : Sign :=
  Sign.ofCount c.count

/-- What makes a cluster negative, if it is. -/
def negativeSpan? (c : Cluster) : Option Span :=
  if c.count < 0 then some c.span else none

end Cluster

/-- What a group shows besides its body: the sign and the magnitude in front, the span of its parentheses, and
    the span of the whole term. -/
structure Head where
  sign : Option (Located Sign)
  magnitude : Option (Located Int)
  parens : Span
  span : Span
deriving DecidableEq

namespace Head

/-- What makes a group negative, if it is: a minus in front of it, or else its magnitude. -/
def negativeSpan? (h : Head) : Option Span :=
  match h.sign, h.magnitude with
  | some ⟨.minus, span⟩, _ => some span
  | _, some ⟨m, span⟩ => if m < 0 then some span else none
  | _, none => none

/-- A group is negated by a minus in front or by a negative magnitude. -/
def isNegated (h : Head) : Bool :=
  h.negativeSpan?.isSome

/-- A bare head has neither sign nor magnitude, so that its term begins with a parenthesis. -/
def isBare (h : Head) : Bool :=
  h.sign.isNone && h.magnitude.isNone

end Head

/-- The terms of a line, or of the body of a group, from left to right. -/
inductive Row
  | nil
  | cluster (c : Cluster) (join : Option (Located Join)) (rest : Row)
  | group (head : Head) (body : Row) (join : Option (Located Join)) (rest : Row)
deriving DecidableEq

inductive Term
  | cluster (c : Cluster)
  | group (head : Head) (body : Row)
deriving DecidableEq

/-- One term of a row with the join behind it. -/
structure Entry where
  term : Term
  join : Option (Located Join)
deriving DecidableEq

namespace Term

/-- The text that a term was read from. -/
def span : Term → Span
  | .cluster c => c.span
  | .group h _ => h.span

/-- A group ends with a parenthesis, a cluster with its symbol. -/
def isGroup : Term → Bool
  | .cluster _ => false
  | .group _ _ => true

/-- A term begins with a parenthesis when it is a group with a bare head. -/
def opensBare : Term → Bool
  | .cluster _ => false
  | .group h _ => h.isBare

end Term

namespace Row

instance : Inhabited Row := ⟨.nil⟩

def cons : Entry → Row → Row
  | ⟨.cluster c, join⟩, rest => .cluster c join rest
  | ⟨.group h body, join⟩, rest => .group h body join rest

def ofList (entries : List Entry) : Row :=
  entries.foldr cons .nil

def toList : Row → List Entry
  | .nil => []
  | .cluster c join rest => ⟨.cluster c, join⟩ :: rest.toList
  | .group h body join rest => ⟨.group h body, join⟩ :: rest.toList

def isEmpty : Row → Bool
  | .nil => true
  | .cluster .. | .group .. => false

theorem toList_cons (e : Entry) (rest : Row) : (cons e rest).toList = e :: rest.toList := by
  obtain ⟨_ | _, _⟩ := e <;> rfl

theorem toList_ofList (entries : List Entry) : (ofList entries).toList = entries := by
  induction entries with
  | nil => rfl
  | cons e rest ih => rw [ofList, List.foldr_cons, toList_cons]; exact congrArg _ ih

theorem ofList_toList (row : Row) : ofList row.toList = row := by
  induction row with
  | nil => rfl
  | cluster c join rest ih => exact congrArg (Row.cluster c join) ih
  | group h body join rest _ ih => exact congrArg (Row.group h body join) ih

/-- The number of dots, in words of the machine: a sum beyond the greatest word stays there. -/
def dotCount : Row → Nat
  | .nil => 0
  | .cluster c _ rest => Word.add c.magnitude rest.dotCount
  | .group _ body _ rest => Word.add body.dotCount rest.dotCount

/-- A row without the places of its parts, which tell two rows of the same meaning apart. -/
def forget : Row → Row
  | .nil => .nil
  | .cluster c join rest => .cluster { c with span := default } (join.map Located.forget) rest.forget
  | .group h body join rest =>
    .group ⟨h.sign.map Located.forget, h.magnitude.map Located.forget, default, default⟩ body.forget
      (join.map Located.forget) rest.forget

/-- Two rows are alike when they differ at most in the places of their parts. -/
def Alike (a b : Row) : Prop :=
  a.forget = b.forget

instance : DecidableRel Alike := fun a b => inferInstanceAs (Decidable (a.forget = b.forget))

end Row

end Dotwork
