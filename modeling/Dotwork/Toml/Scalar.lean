import Dotwork.Json

/-!
# Numbers, dates and truth values of a TOML document

A value that is neither a string nor a container is one bare text. Integers are read as such, and floats are kept
as they are written. A date or a time is a table of its own kind.

A text may be an integer by its form and still have no value: in base sixteen, eight or two without any digits, or
in base ten with other characters behind its first underscore. It is illegible then. So is an integer that neither
a signed nor an unsigned word of 128 bits holds, and a float that no finite number of double precision is nearest
to.
-/

namespace Dotwork.Toml.Scalar

/-- The value of a digit of a base up to sixteen. -/
def digit? (base : Nat) (c : Char) : Option Nat :=
  let value? :=
    if c.isDigit then some (c.toNat - '0'.toNat)
    else if 'a' ≤ c && c ≤ 'f' then some (c.toNat - 'a'.toNat + 10)
    else if 'A' ≤ c && c ≤ 'F' then some (c.toNat - 'A'.toNat + 10)
    else none
  value?.filter (· < base)

/-- Whether each underscore of a text stands between two digits; what is in front of the text may count as one. -/
def joinsDigits (isDigit : Char → Bool) (isBehindDigit : Bool) : List Char → Bool
  | [] => true
  | '_' :: rest => isBehindDigit && rest.head?.any isDigit && joinsDigits isDigit false rest
  | c :: rest => joinsDigits isDigit (isDigit c) rest

/-- The sign in front of a number, and the number behind it. -/
def splitSign (cs : List Char) : Option Char × List Char :=
  match cs with
  | '-' :: cs => (some '-', cs)
  | '+' :: cs => (some '+', cs)
  | cs => (none, cs)

def withSign (sign : Option Char) (n : Nat) : Int :=
  if sign = some '-' then -(n : Int) else n

def ofInteger (n : Int) : Json :=
  if -Nat.pow 2 127 ≤ n ∧ n < Nat.pow 2 128 then .integer n else .illegible

/-- The value of an integer by its digits, between which underscores may stand. -/
def ofDigits (base : Nat) (sign : Option Char) (cs : List Char) : Json :=
  let digits := cs.filter (· != '_')
  match digits.foldlM (fun value c => (digit? base c).map (base * value + ·)) 0 with
  | some n => if digits.isEmpty then .illegible else ofInteger (withSign sign n)
  | none => .illegible

def isHexDigit (c : Char) : Bool :=
  (digit? 16 c).isSome

/-- An integer behind the letter of its base. -/
def ofBase? (base : Nat) (cs : List Char) : Option Json :=
  if (cs.all fun c => c == '_' || (digit? base c).isSome) && joinsDigits isHexDigit false cs then
    some (ofDigits base none cs)
  else none

/-- Whether a text is read as an integer in base ten: digits without a zero in front, and behind the first
    underscore whatever has no blank in it. A sign counts as a digit in front of an underscore. -/
def isDecimal (sign : Option Char) (cs : List Char) : Bool :=
  let rest := cs.dropWhile Char.isDigit
  !cs.isEmpty && !(cs.head? == some '0' && 1 < cs.length) && (rest.isEmpty || rest.head? == some '_') &&
    !rest.contains ' ' && joinsDigits isHexDigit sign.isSome cs

def ofDecimal? (sign : Option Char) (cs : List Char) : Option Json :=
  if isDecimal sign cs then some (ofDigits 10 sign cs) else none

/-- The least number that is rounded beyond the greatest finite one of double precision: half a unit in the last
    place above it. -/
def floatBound : Nat :=
  Nat.pow 2 1024 - Nat.pow 2 970

/-- Whether `digits` times a power of ten is rounded beyond the greatest finite number of double precision. -/
def isBeyondFloats (digits : Nat) (exponent : Int) : Bool :=
  if digits = 0 then false
  else if 400 ≤ exponent then true
  else if 0 ≤ exponent then floatBound ≤ digits * Nat.pow 10 exponent.toNat
  else
    let places := exponent.natAbs
    places < (Nat.toDigits 10 digits).length && floatBound * Nat.pow 10 places ≤ digits

/-- The digits of a run of digits and underscores in front of a text, and the text behind the run. -/
def digitRun (cs : List Char) : List Char × List Char :=
  let isInside (c : Char) : Bool := c.isDigit || c == '_'
  ((cs.takeWhile isInside).filter Char.isDigit, cs.dropWhile isInside)

/-- The digits of a fraction, and the text behind it; a missing fraction has none. -/
def fraction? (cs : List Char) : Option (List Char × List Char) :=
  match cs with
  | '.' :: cs => let (digits, rest) := digitRun cs; if digits.isEmpty then none else some (digits, rest)
  | cs => some ([], cs)

/-- The exponent that ends a text; a missing one is zero. -/
def exponent? (cs : List Char) : Option Int :=
  match cs with
  | [] => some 0
  | letter :: cs =>
    let (sign, cs) := splitSign cs
    let (digits, rest) := digitRun cs
    if (letter = 'e' ∨ letter = 'E') ∧ ¬digits.isEmpty ∧ rest.isEmpty then
      some (withSign sign (Nat.ofDigitChars 10 digits 0))
    else none

/-- A number with a fraction, an exponent or both, kept as the text that writes it. -/
def ofFloat? (sign : Option Char) (cs text : List Char) : Option Json :=
  let (whole, rest) := digitRun cs
  let hasZeroInFront := cs.head? == some '0' && 1 < whole.length
  if whole.isEmpty || hasZeroInFront || !joinsDigits Char.isDigit sign.isSome cs then none
  else do
    let (fraction, rest) ← fraction? rest
    let exponent ← exponent? rest
    let digits := Nat.ofDigitChars 10 (whole ++ fraction) 0
    return if isBeyondFloats digits (exponent - fraction.length) then .illegible else .literal (String.ofList text)

/-- A number with the letter of its base, or with a sign and in base ten. It may be infinite or no number at all. -/
def ofNumber? (text : List Char) : Option Json :=
  match text with
  | '0' :: 'x' :: cs => ofBase? 16 cs
  | '0' :: 'o' :: cs => ofBase? 8 cs
  | '0' :: 'b' :: cs => ofBase? 2 cs
  | _ =>
    let (sign, cs) := splitSign text
    if cs = ['i', 'n', 'f'] ∨ cs = ['n', 'a', 'n'] then some (.literal (String.ofList text))
    else if cs.any fun c => c == '.' || c == 'e' || c == 'E' then ofFloat? sign cs text
    else ofDecimal? sign cs

/-- A number of so many digits within bounds. -/
def isField (length low high : Nat) (cs : List Char) : Bool :=
  cs.length == length && cs.all Char.isDigit &&
    low ≤ Nat.ofDigitChars 10 cs 0 && Nat.ofDigitChars 10 cs 0 ≤ high

def daysOf (year month : Nat) : Nat :=
  if month = 2 then if (year % 4 = 0 ∧ year % 100 ≠ 0) ∨ year % 400 = 0 then 29 else 28
  else if month = 4 ∨ month = 6 ∨ month = 9 ∨ month = 11 then 30
  else 31

/-- A date as year, month and day. -/
def isDate (cs : List Char) : Bool :=
  let year := cs.take 4
  let month := (cs.drop 5).take 2
  let days := daysOf (Nat.ofDigitChars 10 year 0) (Nat.ofDigitChars 10 month 0)
  isField 4 0 9999 year && cs[4]? == some '-' && isField 2 1 12 month && cs[7]? == some '-' &&
    isField 2 1 days (cs.drop 8)

/-- A time as hour and minute, with a second and a fraction of it where wanted. -/
def isTime (cs : List Char) : Bool :=
  let second := cs.drop 5
  let fraction := second.drop 3
  isField 2 0 23 (cs.take 2) && cs[2]? == some ':' && isField 2 0 59 ((cs.drop 3).take 2) &&
    (second.isEmpty || (second.head? == some ':' && isField 2 0 60 ((second.drop 1).take 2) &&
      (fraction.isEmpty ||
        (fraction.head? == some '.' && 1 < fraction.length && (fraction.drop 1).all Char.isDigit))))

/-- A time with or without its distance from universal time. -/
def isZonedTime (cs : List Char) : Bool :=
  let clock := cs.takeWhile fun c => c.isDigit || c == ':' || c == '.'
  let zone := cs.dropWhile fun c => c.isDigit || c == ':' || c == '.'
  isTime clock &&
    (zone.isEmpty || zone == ['Z'] || zone == ['z'] ||
      ((zone.head? == some '+' || zone.head? == some '-') && zone.length == 6 && isTime (zone.drop 1)))

/-- A date, a time, or both with a letter or a blank between them. -/
def isMoment (cs : List Char) : Bool :=
  isDate cs || isTime cs ||
    (isDate (cs.take 10) && (cs[10]? == some 'T' || cs[10]? == some 't' || cs[10]? == some ' ') &&
      isZonedTime (cs.drop 11))

/-- A date or a time is a table with its text under one key, which is the name of no setting. -/
def ofMoment (cs : List Char) : Json :=
  .object [("moment", .literal (String.ofList cs))]

/-- The value of a bare text. -/
def ofChars? (cs : List Char) : Option Json :=
  if cs = ['t', 'r', 'u', 'e'] then some (.bool true)
  else if cs = ['f', 'a', 'l', 's', 'e'] then some (.bool false)
  else ofNumber? cs <|> if isMoment cs then some (ofMoment cs) else none

end Dotwork.Toml.Scalar
