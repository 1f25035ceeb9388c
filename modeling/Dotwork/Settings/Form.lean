import Dotwork.Json
import Dotwork.Settings
import Dotwork.Word

/-!
# Settings from a document

A document gives settings as records of named fields. A field that is left out keeps its default, an unknown
one is passed over, and one of the wrong type spoils the document. A record may also be a list of its fields in
order, of which the last ones may be missing. What a list holds beyond the fields is not even looked at.
-/

namespace Dotwork.Settings

/-- In what two formats of documents differ: whether a list may hold more than the fields of the record, which
    value may stand under an unknown name, and which value stands for no content. -/
structure Form where
  allowsSurplus : Bool
  mayPassOver : Json → Bool
  isUnit : Json → Bool

/-- The form of a JSON document, where any value may be passed over and null has no content. -/
def Form.json : Form where
  allowsSurplus := false
  mayPassOver _ := true
  isUnit
    | .null => true
    | _ => false

/-- The form of a TOML document, where only what is legible may be passed over, and an empty list or table has no
    content. -/
def Form.toml : Form where
  allowsSurplus := true
  mayPassOver := Json.isLegible
  isUnit
    | .array [] | .object [] => true
    | _ => false

/-- The value of a key that an object has at most once. -/
def unique? (key : String) (members : List (String × Json)) : Option (Option Json) :=
  match members.filter (·.1 == key) with
  | [] => some none
  | [(_, value)] => some (some value)
  | _ => none

/-- The values of the fields of a record, with none for a field that is left out. -/
def fields? (form : Form) (keys : List String) : Json → Option (List (Option Json))
  | .object members =>
    if members.all fun (key, value) => keys.contains key || form.mayPassOver value then
      keys.mapM (unique? · members)
    else none
  | .array items =>
    if keys.length < items.length && !form.allowsSurplus then none
    else some (items.map some ++ List.replicate (keys.length - items.length) none)
  | _ => none

/-- A setting that is a number of words of the machine. -/
def natural? : Json → Option Nat
  | .integer n => if 0 ≤ n ∧ n ≤ Word.greatest then some n.toNat else none
  | _ => none

def policyNamed? (name : String) : Option NegativePolicy :=
  if name = "mark" then some .mark else if name = "reject" then some .reject else none

/-- A policy is given by its name, or by an object whose only key is its name and which has no content. -/
def policy? (form : Form) : Json → Option NegativePolicy
  | .string name => policyNamed? name
  | .object [(name, value)] => if form.isUnit value then policyNamed? name else none
  | _ => none

/-- The value of a field, or its default where it is left out. -/
def field? {α : Type} (read : Json → Option α) (default : α) : Option Json → Option α
  | none => some default
  | some value => read value

/-- The nesting limit from the section on reading. -/
def maxDepth? (form : Form) (part : Json) : Option Nat := do
  match ← fields? form ["max_depth"] part with
  | depth :: _ => field? natural? ({} : Settings).maxDepth depth
  | [] => none

/-- The settings of the section on layouts, with a given nesting limit. -/
def layout? (form : Form) (s : Settings) (part : Json) : Option Settings := do
  let keys := ["space_gap", "union_gap", "group_padding", "zero_width", "max_elements", "negative_counts"]
  match ← fields? form keys part with
  | space :: union :: padding :: zero :: elements :: negatives :: _ =>
    let spacing : Spacing := {
      spaceGap := ← field? natural? s.spacing.spaceGap space
      unionGap := ← field? natural? s.spacing.unionGap union
      groupPadding := ← field? natural? s.spacing.groupPadding padding
      zeroWidth := ← field? natural? s.spacing.zeroWidth zero }
    return { s with
      spacing
      maxElements := ← field? natural? s.maxElements elements
      negatives := ← field? (policy? form) s.negatives negatives }
  | _ => none

def ofDocument? (form : Form) (document : Json) : Option Settings := do
  match ← fields? form ["parser", "layout"] document with
  | reading :: layout :: _ =>
    let s : Settings := { maxDepth := ← field? (maxDepth? form) ({} : Settings).maxDepth reading }
    field? (layout? form s) s layout
  | _ => none

end Dotwork.Settings
