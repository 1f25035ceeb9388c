import Dotwork.Toml.Scalar
import Dotwork.Toml.Scanner
import Dotwork.Toml.Table

/-!
# Reading a TOML document

A document is a list of statements, one on a line: headers of tables, and keys with values. It is read as an
object. Each reading function returns what it read and the words behind it. Containers nest at most 80 deep, and
a path has at most 80 keys.
-/

namespace Dotwork.Toml

/-- One line of a document. The last key of a path stands apart from the steps to it. -/
inductive Statement
  | table (steps : List String) (key : String)
  | item (steps : List String) (key : String)
  | entry (steps : List String) (key : String) (content : Json)

namespace Reader

/-- How many containers may be open at once in a value, and how many keys a path may have. -/
def limit : Nat :=
  80

def behindBlanks (words : List Word) : List Word :=
  words.dropWhile fun w => w == .space || w == .tab

def behindBreaks (words : List Word) : List Word :=
  words.dropWhile fun w => w == .space || w == .tab || w == .newline

/-- One key: a bare one of letters, digits, underscores and hyphens, or a string of one line. -/
def key? : Word → Option String
  | .bare text => if text.all fun c => c.isAlphanum || c == '_' || c == '-' then some (String.ofList text) else none
  | .string content false => some content
  | _ => none

/-- The keys of a path behind its first one, which dots join, with the words behind them. -/
def steps (fuel : Nat) (words : List Word) : Option (List String × List Word) :=
  match fuel, behindBlanks words with
  | fuel + 1, .dot :: words =>
    match behindBlanks words with
    | w :: words => do
      let key ← key? w
      let (keys, words) ← steps fuel words
      return (key :: keys, words)
    | [] => none
  | _, words => some ([], words)

/-- A path of keys, as its last key and the steps to it, with the words behind it and its blanks. -/
def path (words : List Word) : Option (List String × String × List Word) :=
  match behindBlanks words with
  | [] => none
  | w :: words => do
    let first ← key? w
    let (keys, words) ← steps words.length words
    let keys := first :: keys
    if keys.length ≤ limit then return (keys.dropLast, keys.getLastD first, words) else none

/-- The characters of a bare value, which goes on over bare words and dots, and over blanks in front of a bare word.
    The blanks read before come with the last one first; at the end of a value they are no part of it. -/
def bareChars (blanks : List Char) : List Word → List Char × List Word
  | .bare text :: words => let (rest, words) := bareChars [] words; (blanks.reverse ++ text ++ rest, words)
  | .space :: words => bareChars (' ' :: blanks) words
  | .tab :: words => bareChars ('\t' :: blanks) words
  | .dot :: words =>
    if blanks.isEmpty then let (rest, words) := bareChars [] words; ('.' :: rest, words) else ([], .dot :: words)
  | words => ([], words)

def bareValue (words : List Word) : Option (Json × List Word) :=
  let (text, words) := bareChars [] words
  (Scalar.ofChars? text).map (·, words)

mutual

/-- A value, in which `room` containers may be open at once. -/
def value (fuel room : Nat) (words : List Word) : Option (Json × List Word) :=
  match fuel, room, words with
  | 0, _, _ => none
  | _, _, .string content _ :: words => some (.string content, words)
  | fuel + 1, room + 1, .leftBracket :: words => items fuel room [] words
  | fuel + 1, room + 1, .leftBrace :: words => members fuel room [] words
  | _, _, words => bareValue words

/-- The items of a list behind those read before, last one first, up to its bracket. -/
def items (fuel room : Nat) (done : List Json) (words : List Word) : Option (Json × List Word) :=
  match fuel, behindBreaks words with
  | 0, _ => none
  | _, .rightBracket :: words => some (.array done.reverse, words)
  | fuel + 1, words => do
    let (item, words) ← value fuel room words
    match behindBreaks words with
    | .comma :: words => items fuel room (item :: done) words
    | .rightBracket :: words => return (.array (item :: done).reverse, words)
    | _ => none

/-- The entries of a table in braces behind those read before, up to its brace. A line may break anywhere but
    inside a path of keys. -/
def members (fuel room : Nat) (done : Entries) (words : List Word) : Option (Json × List Word) :=
  match fuel, behindBreaks words with
  | 0, _ => none
  | _, .rightBrace :: words => some (.object (Node.members done), words)
  | fuel + 1, words => do
    let (steps, key, words) ← path words
    match behindBreaks words with
    | .equals :: words => do
      let (content, words) ← value fuel room (behindBreaks words)
      let done ← done.put key content (!steps.isEmpty) .header steps
      match behindBreaks words with
      | .comma :: words => members fuel room done words
      | .rightBrace :: words => return (.object (Node.members done), words)
      | _ => none
    | _ => none

end

def header (words : List Word) : Option (Statement × List Word) :=
  match words with
  | .leftBracket :: words => do
    let (steps, key, words) ← path words
    match behindBlanks words with
    | .rightBracket :: .rightBracket :: words => return (.item steps key, words)
    | _ => none
  | words => do
    let (steps, key, words) ← path words
    match behindBlanks words with
    | .rightBracket :: words => return (.table steps key, words)
    | _ => none

def entry (words : List Word) : Option (Statement × List Word) := do
  let (steps, key, words) ← path words
  match behindBlanks words with
  | .equals :: words =>
    let (content, words) ← value (words.length + 1) limit (behindBlanks words)
    return (.entry steps key content, words)
  | _ => none

/-- The statements of a document behind those read before, last one first. -/
def statements (fuel : Nat) (done : List Statement) (words : List Word) : Option (List Statement) :=
  match fuel, behindBreaks words with
  | _, [] => some done.reverse
  | 0, _ => none
  | fuel + 1, words => do
    let (s, words) ← match words with
      | .leftBracket :: words => header words
      | words => entry words
    match behindBlanks words with
    | [] => return (s :: done).reverse
    | .newline :: words => statements fuel (s :: done) words
    | _ => none

end Reader

/-- A document in the making: its tables, and the steps to the one that is open. -/
structure Document where
  entries : Entries
  opened : List String

/-- Adds a statement to a document. -/
def Document.add (d : Document) : Statement → Option Document
  | .table steps key => (d.entries.along (·.openTable key) steps).map (⟨·, steps ++ [key]⟩)
  | .item steps key => (d.entries.along (·.openItem key) steps).map (⟨·, steps ++ [key]⟩)
  | .entry steps key content =>
    (d.entries.along (·.put key content (!steps.isEmpty) .header steps) d.opened).map (⟨·, d.opened⟩)

/-- The object that a document writes, if it writes one. -/
def ofText? (text : String) : Option Json := do
  let words ← words? text
  let statements ← Reader.statements (words.length + 1) [] words
  let d ← statements.foldlM Document.add ⟨[], []⟩
  return .object (Node.members d.entries)

end Dotwork.Toml
