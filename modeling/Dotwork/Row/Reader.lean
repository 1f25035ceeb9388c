import Dotwork.Row
import Dotwork.Row.Fault

/-!
# Reading a row

A reader takes the tokens of a line one at a time. What it holds between two tokens is the part of the row read
so far: the groups that are open, the finished entries of the innermost one, and where in an entry it stands.
Each token either moves it on or is the first that no row can have there, and then it names the fault. So what
a reader says about a token never depends on the tokens behind it.
-/

namespace Dotwork.Row.Reader

/-- The beginning of a term up to its symbol or parenthesis: where it starts, its sign, a second minus, and its
    count. At least one of the three is there. -/
structure Lead where
  position : Nat
  first : Span
  sign : Option (Located Sign)
  negation : Option Span
  count : Option (Located Nat)
deriving DecidableEq

/-- Where a reader stands in an entry. -/
inductive Stand
  /-- Before the first term. -/
  | fresh
  /-- In the beginning of a term. -/
  | lead (l : Lead)
  /-- Directly behind a term. -/
  | behind (t : Term)
  /-- Behind a term and one blank. -/
  | behindBlank (t : Term) (blank : Span)
  /-- Behind a term and a plus; `join` covers the blank before it, too. -/
  | behindPlus (t : Term) (join : Span)
  /-- Behind a term, a plus and one blank; `join` covers all between the terms. -/
  | behindPlusBlank (t : Term) (join : Span)
deriving DecidableEq

/-- An open group: the finished entries in front of it, last one first, what stands before its parenthesis, and
    the parenthesis. -/
structure Frame where
  before : List Entry
  first : Span
  sign : Option (Located Sign)
  magnitude : Option (Located Int)
  paren : Span
  position : Nat
deriving DecidableEq

/-- What a reader holds: the open groups, innermost first, the finished entries of the innermost one, last one
    first, and where it stands. -/
structure State where
  frames : List Frame
  done : List Entry
  stand : Stand
deriving DecidableEq

def start : State :=
  ⟨[], [], .fresh⟩

/-- The entries of the innermost group when nothing follows, last one first. -/
def State.entries (s : State) : List Entry :=
  match s.stand with
  | .fresh | .lead _ => s.done
  | .behind t | .behindBlank t _ | .behindPlus t _ | .behindPlusBlank t _ => ⟨t, none⟩ :: s.done

def State.row (s : State) : Row :=
  .ofList s.entries.reverse

/-- Opens a group behind a parenthesis, unless `limit` groups are open. -/
def openGroup (limit position : Nat) (paren first : Span) (sign : Option (Located Sign))
    (magnitude : Option (Located Int)) (s : State) : Except Fault State :=
  if s.frames.length < limit then
    .ok ⟨⟨s.done, first, sign, magnitude, paren, position⟩ :: s.frames, [], .fresh⟩
  else .error ⟨.tooDeep, position, position + 1⟩

/-- Closes the innermost group, which becomes a term of the row around it. -/
def closeGroup (position : Nat) (paren : Span) (s : State) : Except Fault State :=
  match s.frames with
  | [] => .error ⟨.strayClose, position, position⟩
  | f :: frames =>
    let parens := f.paren.union paren
    .ok ⟨frames, f.before, .behind (.group ⟨f.sign, f.magnitude, parens, f.first.union parens⟩ s.row)⟩

/-- A token that neither continues nor closes the row it stands in. -/
def stray (position : Nat) (s : State) : Except Fault State :=
  match s.frames with
  | [] => .error ⟨.trailing, position, position⟩
  | f :: _ => .error ⟨.strayInGroup f.paren, position, position⟩

/-- Begins a term with a token that can begin one. -/
def beginTerm (limit position : Nat) (t : Located Token) (s : State) : Except Fault State :=
  match t.value with
  | .integer n =>
    if n ≤ Word.greatestSigned then
      .ok { s with stand := .lead ⟨position, t.span, none, none, some ⟨n, t.span⟩⟩ }
    else .error ⟨.signAlone, position, position⟩
  | .plus => .ok { s with stand := .lead ⟨position, t.span, some ⟨.plus, t.span⟩, none, none⟩ }
  | .minus => .ok { s with stand := .lead ⟨position, t.span, some ⟨.minus, t.span⟩, none, none⟩ }
  | .leftParen => openGroup limit position t.span t.span none none s
  | .symbol _ | .rightParen | .blank => stray position s

/-- Ties the term read last to a term that begins. -/
def tie (t : Term) (join : Option (Located Join)) (s : State) : State :=
  { s with done := ⟨t, join⟩ :: s.done }

/-- The fault of a beginning that is cut off. -/
def Lead.cutOff (l : Lead) (position : Nat) : Fault :=
  ⟨if l.count.isSome then .countAlone else .signAlone, l.position, position⟩

/-- The count of the cluster that a beginning and a symbol make up. -/
def Lead.clusterCount (l : Lead) : Except Fault.Cause Int :=
  match l.count with
  | none => .error .countMissing
  | some n =>
    if l.negation.isSome then .error .twoSignsOnCluster
    else
      match l.sign.map Located.value with
      | none => .ok n.value
      | some .plus => .error .plusOnCluster
      | some .minus => if n.value = 0 then .error .zeroNegated else .ok (-n.value)

/-- The magnitude of the group that a beginning and a parenthesis make up. -/
def Lead.magnitude (l : Lead) : Except Fault.Cause (Option (Located Int)) :=
  match l.negation, l.count with
  | some _, none => .error .magnitudeMissing
  | some minus, some n => .ok (some ⟨-n.value, minus.union n.span⟩)
  | none, n => .ok (n.map fun n => ⟨n.value, n.span⟩)

/-- Takes a token in the beginning of a term. -/
def stepLead (limit position : Nat) (l : Lead) (t : Located Token) (s : State) : Except Fault State :=
  match t.value with
  | .minus =>
    if l.negation.isNone ∧ l.count.isNone then .ok { s with stand := .lead { l with negation := some t.span } }
    else .error (l.cutOff position)
  | .integer n =>
    if l.count.isNone ∧ n ≤ Word.greatestSigned then
      .ok { s with stand := .lead { l with count := some ⟨n, t.span⟩ } }
    else .error (l.cutOff position)
  | .symbol x =>
    match l.clusterCount with
    | .ok count => .ok { s with stand := .behind (.cluster ⟨count, x, l.first.union t.span⟩) }
    | .error cause => .error ⟨cause, l.position, position + 1⟩
  | .leftParen =>
    match l.magnitude with
    | .ok magnitude => openGroup limit position t.span l.first l.sign magnitude s
    | .error cause => .error ⟨cause, l.position, position⟩
  | .plus | .rightParen | .blank => .error (l.cutOff position)

/-- Takes a token directly behind a term. -/
def stepBehind (limit position : Nat) (last : Term) (t : Located Token) (s : State) : Except Fault State :=
  match t.value with
  | .blank => .ok { s with stand := .behindBlank last t.span }
  | .plus => .ok { s with stand := .behindPlus last t.span }
  | .rightParen => closeGroup position t.span s
  | .leftParen => beginTerm limit position t (tie last none s)
  | .integer _ | .minus =>
    if last.isGroup then beginTerm limit position t (tie last none s)
    else .error ⟨.joinMissing last.span, position, position⟩
  | .symbol _ => stray position s

/-- Takes a token behind a term and one blank. The blank joins two terms unless it touches a parenthesis. -/
def stepBehindBlank (limit position : Nat) (last : Term) (blank : Span) (t : Located Token) (s : State) :
    Except Fault State :=
  match t.value with
  | .plus => .ok { s with stand := .behindPlus last (t.span.union blank) }
  | .rightParen => closeGroup position t.span s
  | .leftParen => beginTerm limit position t (tie last none s)
  | .integer _ | .minus =>
    beginTerm limit position t (tie last (if last.isGroup then none else some ⟨.space, blank⟩) s)
  | .symbol _ | .blank => if last.isGroup then stray position s else .error ⟨.termMissing, position, position⟩

/-- Takes the token behind a plus and at most one blank, which has to begin a term. -/
def stepBehindJoin (limit position : Nat) (last : Term) (join : Span) (t : Located Token) (s : State) :
    Except Fault State :=
  if t.value.startsTerm then beginTerm limit position t (tie last (some ⟨.plus, join⟩) s)
  else .error ⟨.termMissing, position, position⟩

def step (limit position : Nat) (s : State) (t : Located Token) : Except Fault State :=
  match s.stand with
  | .fresh =>
    match t.value with
    | .blank => .ok s
    | .rightParen => closeGroup position t.span s
    | .integer _ | .plus | .minus | .leftParen | .symbol _ => beginTerm limit position t s
  | .lead l => stepLead limit position l t s
  | .behind last => stepBehind limit position last t s
  | .behindBlank last blank => stepBehindBlank limit position last blank t s
  | .behindPlus last join =>
    if t.value.isBlank then .ok { s with stand := .behindPlusBlank last (join.union t.span) }
    else stepBehindJoin limit position last join t s
  | .behindPlusBlank last join => stepBehindJoin limit position last join t s

/-- Takes the tokens of a list in turn, the first of which stands at `position`. -/
def run (limit : Nat) : Nat → State → List (Located Token) → Except Fault State
  | _, s, [] => .ok s
  | position, s, t :: rest =>
    match step limit position s t with
    | .ok s => run limit (position + 1) s rest
    | .error f => .error f

/-- A list may be taken in two parts. -/
theorem run_append (limit position : Nat) (s : State) (first rest : List (Located Token)) :
    run limit position s (first ++ rest) =
      match run limit position s first with
      | .ok s => run limit (position + first.length) s rest
      | .error f => .error f := by
  induction first generalizing position s with
  | nil => rfl
  | cons t first ih =>
    simp only [List.cons_append, run]
    cases step limit position s t with
    | error f => rfl
    | ok s =>
      simp only [ih]
      rw [List.length_cons, Nat.add_assoc, Nat.add_comm 1 first.length]

/-- The row that a reader has read when the line ends at `position`. -/
def finish (position : Nat) (s : State) : Except Fault Row :=
  match s.stand with
  | .lead l => .error (l.cutOff position)
  | .behindPlus _ _ | .behindPlusBlank _ _ => .error ⟨.termMissing, position, position⟩
  | .fresh | .behind _ | .behindBlank _ _ =>
    match s.frames with
    | [] => .ok s.row
    | f :: _ => .error ⟨.groupOpen, f.position, position⟩

end Reader

/-- The row that a list of tokens makes up, or its fault; at most `limit` groups may be open at once. -/
def ofTokens (limit : Nat) (tokens : List (Located Token)) : Except Fault Row :=
  match Reader.run limit 0 Reader.start tokens with
  | .ok s => Reader.finish tokens.length s
  | .error f => .error f

end Dotwork.Row
