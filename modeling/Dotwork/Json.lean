import Dotwork.Decimal

/-!
# JSON

The values of the JSON format, and their two texts: a compact one without blanks, and a tall one with one
member or item on a line. Members keep their order.
-/

namespace Dotwork

/-- A JSON value. A number with a fraction or an exponent is kept as it is written, and so is any other plain value
    that a document in another format may hold. A value that is written but has no meaning is illegible: a string
    with half of a pair of surrogates, an object with such a key, or a number without a value in its format. -/
inductive Json
  | null
  | bool (b : Bool)
  | integer (n : Int)
  | literal (text : String)
  | string (s : String)
  | array (items : List Json)
  | object (members : List (String × Json))
  | illegible

namespace Json

instance : Inhabited Json := ⟨.null⟩

/-- The value, or null where there is none. -/
def ofOption : Option Json → Json
  | some j => j
  | none => .null

def ofNat (n : Nat) : Json :=
  .integer n

mutual

/-- Whether nothing in a value is illegible. -/
def isLegible : Json → Bool
  | .null | .bool _ | .integer _ | .literal _ | .string _ => true
  | .array items => areLegible items
  | .object members => haveLegible members
  | .illegible => false

def areLegible : List Json → Bool
  | [] => true
  | item :: items => isLegible item && areLegible items

def haveLegible : List (String × Json) → Bool
  | [] => true
  | (_, value) :: members => isLegible value && haveLegible members

end

/-- The escape of a control character that has no short one: its code point in four hexadecimal digits. -/
def hexEscape (c : Char) : List Char :=
  let digits := Nat.toDigits 16 c.toNat
  '\\' :: 'u' :: List.replicate (4 - digits.length) '0' ++ digits

/-- A character inside a string: quotes, backslashes and the controls below the space are escaped. -/
def escape (c : Char) : List Char :=
  if c = '"' then ['\\', '"']
  else if c = '\\' then ['\\', '\\']
  else if c = '\x08' then ['\\', 'b']
  else if c = '\x0C' then ['\\', 'f']
  else if c = '\n' then ['\\', 'n']
  else if c = '\r' then ['\\', 'r']
  else if c = '\t' then ['\\', 't']
  else if c.toNat < 0x20 then hexEscape c
  else [c]

def quote (s : String) : String :=
  String.ofList ('"' :: s.toList.flatMap escape ++ ['"'])

/-- The text of a value that holds no other values, and of an empty container. -/
def leaf : Json → String
  | .null | .illegible => "null"
  | .bool true => "true"
  | .bool false => "false"
  | .integer n => String.ofList (Decimal.chars n)
  | .literal written => written
  | .string s => quote s
  | .array _ => "[]"
  | .object _ => "\x7b\x7d"

/-- How a container with something in it is set: what stands before its first entry, between two of them and
    after the last one, given how many containers are around the entries, and what follows a key. -/
structure Style where
  first : Nat → String
  next : Nat → String
  last : Nat → String
  colon : String

/-- The start of a line, indented by two spaces for each container around it. -/
def indent (depth : Nat) : String :=
  String.ofList ('\n' :: List.replicate (2 * depth) ' ')

/-- Everything on one line, without blanks. -/
def Style.compact : Style :=
  ⟨fun _ => "", fun _ => ",", fun _ => "", ":"⟩

/-- Every entry on a line of its own. -/
def Style.tall : Style :=
  ⟨indent, fun depth => "," ++ indent depth, fun depth => indent (depth - 1), ": "⟩

mutual

/-- Puts a value, with `depth` containers around it, behind a text. -/
def append (style : Style) (depth : Nat) (text : String) : Json → String
  | .array (item :: items) =>
    let text := append style (depth + 1) (text ++ "[" ++ style.first (depth + 1)) item
    appendItems style (depth + 1) text items ++ style.last (depth + 1) ++ "]"
  | .object (member :: members) =>
    let text := appendMember style (depth + 1) (text ++ "\x7b" ++ style.first (depth + 1)) member
    appendMembers style (depth + 1) text members ++ style.last (depth + 1) ++ "\x7d"
  | .null => text ++ leaf .null
  | .bool b => text ++ leaf (.bool b)
  | .integer n => text ++ leaf (.integer n)
  | .literal written => text ++ leaf (.literal written)
  | .string s => text ++ leaf (.string s)
  | .array [] => text ++ leaf (.array [])
  | .object [] => text ++ leaf (.object [])
  | .illegible => text ++ leaf .illegible

/-- Puts items that follow another one behind a text. -/
def appendItems (style : Style) (depth : Nat) (text : String) : List Json → String
  | [] => text
  | item :: items => appendItems style depth (append style depth (text ++ style.next depth) item) items

/-- Puts members that follow another one behind a text. -/
def appendMembers (style : Style) (depth : Nat) (text : String) : List (String × Json) → String
  | [] => text
  | member :: members =>
    appendMembers style depth (appendMember style depth (text ++ style.next depth) member) members

/-- Puts a key and its value behind a text. -/
def appendMember (style : Style) (depth : Nat) (text : String) : String × Json → String
  | (key, value) => append style depth (text ++ quote key ++ style.colon) value

end

def compact (j : Json) : String :=
  j.append .compact 0 ""

def tall (j : Json) : String :=
  j.append .tall 0 ""

end Json

end Dotwork
