/-!
# The words of a TOML document

A document is keys, values and punctuation between blanks, and its lines count. A scanner takes one character
at a time and holds the word that it is in; strings come out with their escapes resolved, and comments are
left out. A bare word is any run of characters up to a blank or a mark of punctuation: what it may say is settled
where it stands, as a key or as a value.
-/

namespace Dotwork.Toml

/-- A word of a document. -/
inductive Word
  | newline
  | space
  | tab
  | leftBracket
  | rightBracket
  | leftBrace
  | rightBrace
  | comma
  | equals
  | dot
  | bare (text : List Char)
  | string (content : String) (isMultiline : Bool)
deriving DecidableEq

namespace Scanner

/-- Where a scanner stands. What is read of a word is kept with its last character first. -/
inductive State
  | between
  | comment
  | bare (read : List Char)
  /-- Behind one quote that opens a string. -/
  | quote (mark : Char)
  /-- Behind two quotes: an empty string, unless a third one follows. -/
  | quotes (mark : Char)
  /-- Behind three quotes, where a line break is passed over. -/
  | opened (mark : Char)
  | line (mark : Char) (read : List Char)
  /-- In a string of several lines, behind as many quotes in a row. -/
  | lines (mark : Char) (read : List Char) (run : Nat)
  | escape (isMultiline : Bool) (read : List Char)
  /-- In an escape with hexadecimal digits, some of which are missing. -/
  | hex (isMultiline : Bool) (read : List Char) (missing code : Nat)
  /-- Behind a backslash at the end of a line, where blanks and line breaks are passed over. -/
  | folded (isBroken : Bool) (read : List Char)

/-- A control character that no document holds. -/
def isForbidden (c : Char) : Bool :=
  (c.toNat < 0x20 && c != '\t') || c.toNat == 0x7F

/-- A character that ends a bare word: a mark of punctuation, a blank, a line break or the start of a comment. -/
def endsBare (c : Char) : Bool :=
  ['.', '=', ',', '[', ']', '\x7b', '\x7d', ' ', '\t', '#', '\r', '\n'].contains c

def hexDigit? (c : Char) : Option Nat :=
  if c.isDigit then some (c.toNat - '0'.toNat)
  else if 'a' ≤ c && c ≤ 'f' then some (c.toNat - 'a'.toNat + 10)
  else if 'A' ≤ c && c ≤ 'F' then some (c.toNat - 'A'.toNat + 10)
  else none

/-- A string of one line, or of several, that goes on behind an escape. -/
def resume (isMultiline : Bool) (read : List Char) : State :=
  if isMultiline then .lines '"' read 0 else .line '"' read

def stepEscape (isMultiline : Bool) (read : List Char) (c : Char) : Option State :=
  match c with
  | 'b' => some (resume isMultiline ('\x08' :: read))
  | 't' => some (resume isMultiline ('\t' :: read))
  | 'n' => some (resume isMultiline ('\n' :: read))
  | 'f' => some (resume isMultiline ('\x0C' :: read))
  | 'r' => some (resume isMultiline ('\r' :: read))
  | 'e' => some (resume isMultiline ('\x1B' :: read))
  | '"' => some (resume isMultiline ('"' :: read))
  | '\\' => some (resume isMultiline ('\\' :: read))
  | 'x' => some (.hex isMultiline read 2 0)
  | 'u' => some (.hex isMultiline read 4 0)
  | 'U' => some (.hex isMultiline read 8 0)
  | ' ' | '\t' => if isMultiline then some (.folded false read) else none
  | '\n' => if isMultiline then some (.folded true read) else none
  | _ => none

/-- Takes a character between two words. A bare word may start with whatever starts nothing else. -/
def stepBetween (c : Char) : Option (State × List Word) :=
  match c with
  | '\n' => some (.between, [.newline])
  | ' ' => some (.between, [.space])
  | '\t' => some (.between, [.tab])
  | '#' => some (.comment, [])
  | '[' => some (.between, [.leftBracket])
  | ']' => some (.between, [.rightBracket])
  | '\x7b' => some (.between, [.leftBrace])
  | '\x7d' => some (.between, [.rightBrace])
  | ',' => some (.between, [.comma])
  | '=' => some (.between, [.equals])
  | '.' => some (.between, [.dot])
  | '"' | '\'' => some (.quote c, [])
  | '\r' => none
  | _ => some (.bare [c], [])

/-- Ends a word and takes the character behind it. -/
def stepBehind (w : Word) (c : Char) : Option (State × List Word) :=
  (stepBetween c).map fun (s, words) => (s, w :: words)

def content (read : List Char) : String :=
  String.ofList read.reverse

/-- Takes a character in a string of several lines. Three quotes end it; up to two more belong to it. -/
def stepLines (mark : Char) (read : List Char) (run : Nat) (c : Char) : Option (State × List Word) :=
  if c = mark then if run < 5 then some (.lines mark (c :: read) (run + 1), []) else none
  else if 3 ≤ run then stepBehind (.string (content (read.drop 3)) true) c
  else if c = '\\' ∧ mark = '"' then some (.escape true read, [])
  else if isForbidden c ∧ c ≠ '\n' then none
  else some (.lines mark (c :: read) 0, [])

/-- Takes a character; the words that it ends come with the next state. -/
def step (s : State) (c : Char) : Option (State × List Word) :=
  match s with
  | .between => stepBetween c
  | .comment =>
    if c = '\n' then some (.between, [.newline]) else if isForbidden c then none else some (.comment, [])
  | .bare read => if endsBare c then stepBehind (.bare read.reverse) c else some (.bare (c :: read), [])
  | .quote mark =>
    if c = mark then some (.quotes mark, [])
    else if c = '\\' ∧ mark = '"' then some (.escape false [], [])
    else if isForbidden c then none
    else some (.line mark [c], [])
  | .quotes mark => if c = mark then some (.opened mark, []) else stepBehind (.string "" false) c
  | .opened mark => if c = '\n' then some (.lines mark [] 0, []) else stepLines mark [] 0 c
  | .line mark read =>
    if c = mark then some (.between, [.string (content read) false])
    else if c = '\\' ∧ mark = '"' then some (.escape false read, [])
    else if isForbidden c then none
    else some (.line mark (c :: read), [])
  | .lines mark read run => stepLines mark read run c
  | .escape isMultiline read => (stepEscape isMultiline read c).map (·, [])
  | .hex isMultiline read missing code => do
    let code := 16 * code + (← hexDigit? c)
    if 1 < missing then return (.hex isMultiline read (missing - 1) code, [])
    if Nat.isValidChar code then return (resume isMultiline (Char.ofNat code :: read), []) else none
  | .folded isBroken read =>
    if c = '\n' then some (.folded true read, [])
    else if c = ' ' ∨ c = '\t' then some (.folded isBroken read, [])
    else if isBroken then stepLines '"' read 0 c
    else none

/-- The words that the end of a document ends. -/
def atEnd : State → Option (List Word)
  | .between | .comment => some []
  | .bare read => some [.bare read.reverse]
  | .quotes _ => some [.string "" false]
  | .lines _ read run => if 3 ≤ run then some [.string (content (read.drop 3)) true] else none
  | .quote _ | .opened _ | .line .. | .escape .. | .hex .. | .folded .. => none

/-- The words of the rest of a document, behind those read before, last one first. -/
def run (done : List Word) (s : State) : List Char → Option (List Word)
  | [] => (atEnd s).map fun words => (words.reverse ++ done).reverse
  | c :: rest =>
    match step s c with
    | none => none
    | some (s, words) => run (words.reverse ++ done) s rest

/-- A document with all its line breaks of one kind. -/
def lineFeeds : List Char → List Char
  | '\r' :: '\n' :: rest => '\n' :: lineFeeds rest
  | c :: rest => c :: lineFeeds rest
  | [] => []

end Scanner

/-- The words of a document, if it is made of such. A mark of the byte order in front of it says nothing. -/
def words? (text : String) : Option (List Word) :=
  let chars := Scanner.lineFeeds text.toList
  Scanner.run [] .between (if chars.head? == some '\uFEFF' then chars.drop 1 else chars)

end Dotwork.Toml
