import Dotwork.Diagnostic
import Dotwork.Token

/-!
# Lexemes

A line is cut into lexemes before anything is read into it: a run of digits or of blanks is as long as it can
be, and every other glyph stands alone. Each lexeme is a token by itself or has a fault by itself, so that one
fault never hides another.
-/

namespace Dotwork

/-- A stretch of a line that is one token or one fault. -/
inductive Lexeme
  | digits (run : List Char)
  | blanks (run : List Char)
  | glyph (c : Char)
deriving DecidableEq

namespace Lexeme

def chars : Lexeme → List Char
  | .digits run => run
  | .blanks run => run
  | .glyph c => [c]

def size (l : Lexeme) : Nat :=
  l.chars.foldr (fun c size => c.utf8Size + size) 0

/-- Puts a glyph in front of a line that is cut already: a digit lengthens a run of digits that follows it, and
    a blank a run of blanks. -/
def push (c : Char) (rest : List Lexeme) : List Lexeme :=
  match Glyph.kind c, rest with
  | .digit, .digits run :: rest => .digits (c :: run) :: rest
  | .digit, rest => .digits [c] :: rest
  | .blank, .blanks run :: rest => .blanks (c :: run) :: rest
  | .blank, rest => .blanks [c] :: rest
  | _, rest => .glyph c :: rest

/-- Cuts a line into its lexemes. -/
def cut (line : List Char) : List Lexeme :=
  line.foldr push []

theorem push_chars (c : Char) (rest : List Lexeme) : (push c rest).flatMap chars = c :: rest.flatMap chars := by
  unfold push
  split <;> simp [chars]

/-- Cutting loses nothing: the lexemes make up the line. -/
theorem cut_chars (line : List Char) : (cut line).flatMap chars = line := by
  induction line with
  | nil => rfl
  | cons c line ih => simp only [cut, List.foldr_cons, push_chars] at ih ⊢; rw [ih]

/-- Why a lexeme is no token. -/
inductive Fault
  | foreignGlyph (why : Symbol.Fault)
  | malformedInteger (run : List Char)
  | integerOutOfRange (run : List Char)
deriving DecidableEq

namespace Fault

def code : Fault → Diagnostic.Code
  | .foreignGlyph _ => .foreignGlyph
  | .malformedInteger _ => .malformedInteger
  | .integerOutOfRange _ => .integerOutOfRange

def message : Fault → String
  | .foreignGlyph why => why.message
  | .malformedInteger run => let digits := String.ofList run; s!"malformed integer `{digits}`"
  | .integerOutOfRange run => let digits := String.ofList run; s!"integer `{digits}` is out of range"

def help : Fault → String
  | .foreignGlyph _ => "combining marks, control characters and non-ASCII numerals cannot label a dot"
  | .malformedInteger _ => "counts are written without leading zeros"
  | .integerOutOfRange _ => "a count must fit in a signed 64-bit integer"

/-- The diagnostic of a fault marks the whole lexeme. -/
def diagnostic (f : Located Fault) : Diagnostic where
  message := f.value.message
  code := some f.value.code
  labels := [⟨f.span, f.value.code.description, true⟩]
  help := some f.value.help

end Fault

/-- The integer that a run of digits writes; no zero may stand in front, and the value fits a signed word. -/
def integer (run : List Char) : Except Fault Token :=
  if 1 < run.length ∧ run.head? = some '0' then .error (.malformedInteger run)
  else if Nat.ofDigitChars 10 run 0 ≤ Word.greatestSigned then .ok (.integer (Nat.ofDigitChars 10 run 0))
  else .error (.integerOutOfRange run)

/-- The token of a glyph that stands alone. -/
def single (c : Char) : Except Fault Token :=
  if c = '+' then .ok .plus
  else if c = '-' then .ok .minus
  else if c = '(' then .ok .leftParen
  else if c = ')' then .ok .rightParen
  else
    match Symbol.ofGlyph c with
    | .ok s => .ok (.symbol s)
    | .error why => .error (.foreignGlyph why)

/-- The token of a lexeme, or its fault. -/
def token : Lexeme → Except Fault Token
  | .digits run => integer run
  | .blanks _ => .ok .blank
  | .glyph c => single c

/-- Places lexemes one after another from an offset on. -/
def place : Nat → List Lexeme → List (Located Lexeme)
  | _, [] => []
  | start, l :: rest => ⟨l, ⟨start, start + l.size⟩⟩ :: place (start + l.size) rest

/-- The token at the place of a lexeme, if the lexeme is one. -/
def tokenAt? (l : Located Lexeme) : Option (Located Token) :=
  match l.value.token with
  | .ok t => some ⟨t, l.span⟩
  | .error _ => none

/-- The fault at the place of a lexeme, if it has one. -/
def faultAt? (l : Located Lexeme) : Option (Located Fault) :=
  match l.value.token with
  | .ok _ => none
  | .error f => some ⟨f, l.span⟩

theorem faultAt?_eq_none_iff {l : Located Lexeme} : faultAt? l = none ↔ ∃ t, l.value.token = .ok t := by
  unfold faultAt?
  split <;> simp_all

end Lexeme

namespace Token

/-- The tokens of a line, or all its lexical faults, each in textual order. -/
def ofChars (line : List Char) : Except (List (Located Lexeme.Fault)) (List (Located Token)) :=
  let lexemes := Lexeme.place 0 (Lexeme.cut line)
  match lexemes.filterMap Lexeme.faultAt? with
  | [] => .ok (lexemes.filterMap Lexeme.tokenAt?)
  | faults => .error faults

/-- The tokens of a line, or the report on its lexical faults. -/
def ofLine (line : String) : Except Diagnostic.Report (List (Located Token)) :=
  (ofChars line.toList).mapError (·.map Lexeme.Fault.diagnostic)

end Token

end Dotwork
