import Dotwork.Json

/-!
# The words of a JSON text

A JSON text is punctuation and plain values between blanks. A scanner takes one character at a time and holds
the plain value that it is in; strings come out with their escapes resolved. Half of a pair of surrogates may be
written but is no character, so that a string with one is illegible.
-/

namespace Dotwork.Json

/-- A word of a JSON text. -/
inductive Word
  | leftBracket
  | rightBracket
  | leftBrace
  | rightBrace
  | colon
  | comma
  | plain (value : Json)

namespace Scanner

/-- What is read of a string, its last character first; half of a pair that stands alone is no character. -/
abbrev Content := List (Option Char)

def Content.value (read : Content) : Json :=
  match read.reverse.mapM id with
  | some chars => .string (String.ofList chars)
  | none => .illegible

/-- Where a scanner stands: between words, in a word of letters and digits, or in a string, where an escape may
    be open. What is read of the word is kept with its last character first. -/
inductive State
  | between
  | bare (read : List Char)
  | string (read : Content)
  | escape (read : Content)
  /-- In the four digits of an escape; `high` is the first half of a pair, if there was one. -/
  | hex (read : Content) (high : Option Nat) (digits : List Nat)
  /-- Behind the first half of a pair. -/
  | pair (read : Content) (high : Nat)
  | pairEscape (read : Content) (high : Nat)

/-- The characters that may stand between words. -/
def isBlank (c : Char) : Bool :=
  c == ' ' || c == '\t' || c == '\n' || c == '\r'

/-- The characters of a word that is not a string. -/
def isBare (c : Char) : Bool :=
  c.isAlphanum || c == '-' || c == '+' || c == '.'

/-- The fraction and the exponent of a number, each of which may be missing. -/
def isTail (cs : List Char) : Bool :=
  match cs with
  | [] => true
  | '.' :: cs =>
    let digits := cs.takeWhile Char.isDigit
    !digits.isEmpty && isExponent (cs.dropWhile Char.isDigit)
  | _ => isExponent cs
where
  isExponent : List Char → Bool
    | [] => true
    | e :: cs =>
      let digits := match cs with
        | '+' :: cs => cs
        | '-' :: cs => cs
        | cs => cs
      (e == 'e' || e == 'E') && !digits.isEmpty && digits.all Char.isDigit

/-- The number that a word writes. One with a fraction or an exponent is a decimal, and so is a negative zero. -/
def number? (word : List Char) : Option Json :=
  let negative := word.head? == some '-'
  let digits := if negative then word.drop 1 else word
  let whole := digits.takeWhile Char.isDigit
  let tail := digits.dropWhile Char.isDigit
  let value := Nat.ofDigitChars 10 whole 0
  if whole.isEmpty || (1 < whole.length && whole.head? == some '0') || !isTail tail then none
  else if tail.isEmpty && !(negative && value == 0) then some (.integer (if negative then -value else value))
  else some (.literal (String.ofList word))

/-- The value that a word writes which is not a string. -/
def bare? (word : List Char) : Option Json :=
  if word = ['n', 'u', 'l', 'l'] then some .null
  else if word = ['t', 'r', 'u', 'e'] then some (.bool true)
  else if word = ['f', 'a', 'l', 's', 'e'] then some (.bool false)
  else number? word

/-- The character of a short escape. -/
def short? (c : Char) : Option Char :=
  match c with
  | '"' => some '"'
  | '\\' => some '\\'
  | '/' => some '/'
  | 'b' => some '\x08'
  | 'f' => some '\x0C'
  | 'n' => some '\n'
  | 'r' => some '\r'
  | 't' => some '\t'
  | _ => none

def hexDigit? (c : Char) : Option Nat :=
  if c.isDigit then some (c.toNat - '0'.toNat)
  else if 'a' ≤ c && c ≤ 'f' then some (c.toNat - 'a'.toNat + 10)
  else if 'A' ≤ c && c ≤ 'F' then some (c.toNat - 'A'.toNat + 10)
  else none

/-- What a scanner holds behind an escape of four digits that does not end a pair: the first half of a pair waits
    for the second, and a second half stands alone. -/
def beginPair (read : Content) (code : Nat) : State :=
  if 0xD800 ≤ code ∧ code < 0xDC00 then .pair read code
  else if 0xDC00 ≤ code ∧ code < 0xE000 then .string (none :: read)
  else .string (some (Char.ofNat code) :: read)

/-- What a scanner holds behind an escape of four digits: a pair of halves is one character, and a first half
    without the second stands alone. -/
def closeHex (read : Content) (high : Option Nat) (code : Nat) : State :=
  match high with
  | none => beginPair read code
  | some high =>
    if 0xDC00 ≤ code ∧ code < 0xE000 then
      .string (some (Char.ofNat (0x10000 + (high - 0xD800) * 0x400 + (code - 0xDC00))) :: read)
    else beginPair (none :: read) code

def stepBetween (c : Char) : Option (State × List Word) :=
  if isBlank c then some (.between, [])
  else if isBare c then some (.bare [c], [])
  else
    match c with
    | '[' => some (.between, [.leftBracket])
    | ']' => some (.between, [.rightBracket])
    | '\x7b' => some (.between, [.leftBrace])
    | '\x7d' => some (.between, [.rightBrace])
    | ':' => some (.between, [.colon])
    | ',' => some (.between, [.comma])
    | '"' => some (.string [], [])
    | _ => none

def stepString (read : Content) (c : Char) : Option (State × List Word) :=
  if c = '"' then some (.between, [.plain read.value])
  else if c = '\\' then some (.escape read, [])
  else if c.toNat < 0x20 then none
  else some (.string (some c :: read), [])

def stepEscape (read : Content) (c : Char) : Option (State × List Word) :=
  if c = 'u' then some (.hex read none [], []) else (short? c).map fun c => (.string (some c :: read), [])

/-- Takes a character; the words that it ends come with the next state. -/
def step (s : State) (c : Char) : Option (State × List Word) :=
  match s with
  | .between => stepBetween c
  | .bare read =>
    if isBare c then some (.bare (c :: read), [])
    else do
      let value ← bare? read.reverse
      let (s, words) ← stepBetween c
      return (s, .plain value :: words)
  | .string read => stepString read c
  | .escape read => stepEscape read c
  | .hex read high digits => do
    let digits := digits ++ [← hexDigit? c]
    if digits.length < 4 then return (.hex read high digits, [])
    return (closeHex read high (digits.foldl (fun code digit => 16 * code + digit) 0), [])
  | .pair read high => if c = '\\' then some (.pairEscape read high, []) else stepString (none :: read) c
  | .pairEscape read high =>
    if c = 'u' then some (.hex read (some high) [], []) else stepEscape (none :: read) c

/-- The words of the rest of a text, behind those read before, last one first. -/
def run (done : List Word) : State → List Char → Option (List Word)
  | .between, [] => some done.reverse
  | .bare read, [] => (bare? read.reverse).map fun value => (.plain value :: done).reverse
  | _, [] => none
  | s, c :: rest =>
    match step s c with
    | none => none
    | some (s, words) => run (words.reverse ++ done) s rest

end Scanner

/-- The words of a JSON text, if it is made of such. -/
def words? (text : String) : Option (List Word) :=
  Scanner.run [] .between text.toList

end Dotwork.Json
