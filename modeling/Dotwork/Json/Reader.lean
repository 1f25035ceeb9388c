import Dotwork.Json.Scanner

/-!
# Reading JSON

A reader takes the words of a text one at a time. It holds the containers that are open, innermost first, and
what may come next. A text is one value and nothing else; a key may occur more than once in an object. An object
with an illegible key is illegible as a whole.
-/

namespace Dotwork.Json.Reader

/-- An open container with its finished entries, last one first; an object also holds the key that is read, and
    none for an illegible one. -/
inductive Frame
  | array (done : List Json)
  | object (done : List (Option String × Json)) (key : Option String)

/-- What may come next. -/
inductive Stage
  | value
  /-- Behind an opening bracket. -/
  | valueOrEnd
  | key
  /-- Behind an opening brace. -/
  | keyOrEnd
  | colon
  /-- Behind an entry of a container. -/
  | commaOrEnd
  /-- Behind the value of the text. -/
  | over (value : Json)

/-- The open containers, innermost first, and what may come next. -/
structure State where
  frames : List Frame
  stage : Stage

/-- Puts a finished value into the innermost container. -/
def put (value : Json) : List Frame → State
  | [] => ⟨[], .over value⟩
  | .array done :: frames => ⟨.array (value :: done) :: frames, .commaOrEnd⟩
  | .object done key :: frames => ⟨.object ((key, value) :: done) key :: frames, .commaOrEnd⟩

def beginValue (frames : List Frame) : Word → Option State
  | .plain value => some (put value frames)
  | .leftBracket => some ⟨.array [] :: frames, .valueOrEnd⟩
  | .leftBrace => some ⟨.object [] none :: frames, .keyOrEnd⟩
  | _ => none

/-- The value of an object with its members, last one first. -/
def objectOf (done : List (Option String × Json)) : Json :=
  match done.reverse.mapM fun (key, value) => key.map (·, value) with
  | some members => .object members
  | none => .illegible

/-- Closes the innermost container with the word that fits it. -/
def close : List Frame → Word → Option State
  | .array done :: frames, .rightBracket => some (put (.array done.reverse) frames)
  | .object done _ :: frames, .rightBrace => some (put (objectOf done) frames)
  | _, _ => none

def takeKey : List Frame → Word → Option State
  | .object done _ :: frames, .plain (.string key) => some ⟨.object done (some key) :: frames, .colon⟩
  | .object done _ :: frames, .plain .illegible => some ⟨.object done none :: frames, .colon⟩
  | _, _ => none

def step (s : State) (w : Word) : Option State :=
  match s.stage with
  | .value => beginValue s.frames w
  | .valueOrEnd =>
    match w with
    | .rightBracket => close s.frames w
    | _ => beginValue s.frames w
  | .key => takeKey s.frames w
  | .keyOrEnd =>
    match w with
    | .rightBrace => close s.frames w
    | _ => takeKey s.frames w
  | .colon =>
    match w with
    | .colon => some { s with stage := .value }
    | _ => none
  | .commaOrEnd =>
    match w, s.frames with
    | .comma, .array _ :: _ => some { s with stage := .value }
    | .comma, .object _ _ :: _ => some { s with stage := .key }
    | _, _ => close s.frames w
  | .over _ => none

end Reader

/-- The value that a text writes, if it writes one. -/
def ofText? (text : String) : Option Json := do
  let words ← words? text
  let s ← words.foldlM Reader.step ⟨[], .value⟩
  match s.stage with
  | .over value => some value
  | _ => none

end Dotwork.Json
