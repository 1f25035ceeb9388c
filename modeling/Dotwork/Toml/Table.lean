import Dotwork.Json

/-!
# The tables of a TOML document

A table comes into being in one of three ways: under a header of its own, as a step on the way to another
table's header, or as a step in a dotted key. How it did decides what may still be put into it, so that no
table is defined twice.
-/

namespace Dotwork.Toml

/-- How a table came into being. -/
inductive Origin
  | header
  | onTheWay
  | dottedKey
deriving DecidableEq

/-- What stands under a key while a document is read. The tables of a list have the last one first. -/
inductive Node
  | value (content : Json)
  | table (origin : Origin) (entries : List (String × Node))
  | tables (items : List (List (String × Node)))

/-- The entries of a table, in the order of the document. -/
abbrev Entries := List (String × Node)

namespace Entries

/-- What stands under a key. -/
def get? (key : String) (entries : Entries) : Option Node :=
  (entries.find? (·.1 == key)).map (·.2)

/-- Puts a node under a key, in place of what stands there. -/
def set (key : String) (node : Node) : Entries → Entries
  | [] => [(key, node)]
  | (k, n) :: rest => if k == key then (key, node) :: rest else (k, n) :: set key node rest

/-- Changes the table that the steps of a header lead to; in a list of tables that is the last one. A table that
    is not there comes into being on the way. -/
def along (change : Entries → Option Entries) (steps : List String) (entries : Entries) : Option Entries :=
  match steps with
  | [] => change entries
  | step :: steps =>
    match entries.get? step with
    | none => (along change steps []).map fun inner => entries.set step (.table .onTheWay inner)
    | some (.table origin inner) =>
      (along change steps inner).map fun inner => entries.set step (.table origin inner)
    | some (.tables (last :: before)) =>
      (along change steps last).map fun last => entries.set step (.tables (last :: before))
    | some (.tables []) | some (.value _) => none

def openTable (key : String) (entries : Entries) : Option Entries :=
  match entries.get? key with
  | none => some (entries.set key (.table .header []))
  | some (.table .onTheWay inner) => some (entries.set key (.table .header inner))
  | some _ => none

def openItem (key : String) (entries : Entries) : Option Entries :=
  match entries.get? key with
  | none => some (entries.set key (.tables [[]]))
  | some (.tables items) => some (entries.set key (.tables ([] :: items)))
  | some _ => none

/-- Puts a value under a key that the steps of a dotted key lead to. Every table on the way becomes one of dotted
    keys, which a table under a header of its own cannot. The table it comes into has to be one of dotted keys if
    there are steps, and one of another origin if there are none. -/
def put (key : String) (content : Json) (isDotted : Bool) (origin : Origin) (steps : List String)
    (entries : Entries) : Option Entries :=
  match steps with
  | [] =>
    if (origin == .dottedKey) == isDotted ∧ (entries.get? key).isNone then some (entries.set key (.value content))
    else none
  | step :: steps =>
    match entries.get? step with
    | none =>
      (put key content isDotted .dottedKey steps []).map fun inner => entries.set step (.table .dottedKey inner)
    | some (.table .header _) => none
    | some (.table _ inner) =>
      (put key content isDotted .dottedKey steps inner).map fun inner => entries.set step (.table .dottedKey inner)
    | some (.tables (last :: before)) =>
      (put key content isDotted .header steps last).map fun last => entries.set step (.tables (last :: before))
    | some (.tables []) | some (.value _) => none

end Entries

mutual

/-- The value of a node. -/
def Node.json : Node → Json
  | .value content => content
  | .table _ entries => .object (Node.members entries)
  | .tables items => .array (Node.items items).reverse

def Node.members : List (String × Node) → List (String × Json)
  | [] => []
  | entry :: rest => Node.member entry :: Node.members rest

def Node.member : String × Node → String × Json
  | (key, node) => (key, node.json)

def Node.items : List (List (String × Node)) → List Json
  | [] => []
  | entries :: rest => .object (Node.members entries) :: Node.items rest

end

end Dotwork.Toml
