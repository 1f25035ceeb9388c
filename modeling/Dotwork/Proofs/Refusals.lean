import Dotwork.Proofs.Depiction

/-!
# What keeps a row from a layout

A row is refused for the number of its dots before anything is placed, and else, where the settings ask for it, for
the first of its pieces that is negative. The dots are counted in words, which stop at the greatest one, but a row is
over its limit in words exactly when it is over the limit, and so are its first terms.
-/

namespace Dotwork

open Layout (GroupId)

/-! ### The number of dots -/

/-- The number of dots of a row, however many they are. -/
def Row.dotTotal : Row → Nat
  | .nil => 0
  | .cluster c _ rest => c.count.natAbs + rest.dotTotal
  | .group _ body _ rest => body.dotTotal + rest.dotTotal

def Term.dotTotal : Term → Nat
  | .cluster c => c.count.natAbs
  | .group _ body => body.dotTotal

def Entry.dotTotal (entries : List Entry) : Nat :=
  (entries.map (·.term.dotTotal)).sum

namespace Row

theorem dotTotal_toList (row : Row) : Entry.dotTotal row.toList = row.dotTotal := by
  induction row with
  | nil => rfl
  | cluster c join rest ih => rw [dotTotal, ← ih]; rfl
  | group h body join rest _ ih => rw [dotTotal, ← ih]; rfl

theorem dotCount_eq_min (row : Row) : row.dotCount = min row.dotTotal Word.greatest := by
  induction row with
  | nil => rfl
  | cluster c join rest ih =>
    rw [dotCount, ih, dotTotal, Word.add, Cluster.magnitude]
    omega
  | group h body join rest ihb ih =>
    rw [dotCount, ihb, ih, dotTotal, Word.add]
    omega

theorem countP_isDot_events (row : Row) : row.events.countP Event.isDot = row.dotTotal := by
  have joins : ∀ join rest, (joinEvents join rest).countP Event.isDot = 0 := fun join rest => by
    unfold joinEvents
    split
    · rfl
    · rcases join with _ | ⟨_ | _, _⟩ <;> rfl
  induction row with
  | nil => rfl
  | cluster c join rest ih =>
    have dots : c.events.countP Event.isDot = c.count.natAbs := by
      unfold Cluster.events
      split
      · next hzero => exact hzero.symm
      · rw [List.countP_replicate]
        rfl
    rw [events, List.countP_append, List.countP_append, dots, joins, ih, dotTotal, Nat.add_zero]
  | group h body join rest ihb ih =>
    have opening : Event.isDot (.opening h) = false := rfl
    have closing : Event.isDot .closing = false := rfl
    simp [events, opening, closing, joins, ihb, ih, dotTotal]

end Row

/-! ### Negative pieces -/

/-- What makes a piece negative is a count below zero, a minus in front of a group, or else a magnitude below zero; it
    stands at the span. -/
inductive Piece.Negative : Piece → Span → Prop
  | count {c : Cluster} (below : c.count < 0) : Negative (.cluster c) c.span
  | sign {id : GroupId} {h : Head} {p : Span} (minus : h.sign = some ⟨.minus, p⟩) : Negative (.group id h) p
  | magnitude {id : GroupId} {h : Head} {m : Int} {p : Span} (noMinus : h.sign.map Located.value ≠ some .minus)
    (magnitude : h.magnitude = some ⟨m, p⟩) (below : m < 0) : Negative (.group id h) p

def Piece.negativeSpan? : Piece → Option Span
  | .cluster c => c.negativeSpan?
  | .group _ h => h.negativeSpan?
  | .plus _ => none

theorem Piece.negativeSpan?_eq_some_iff {piece : Piece} {span : Span} :
    piece.negativeSpan? = some span ↔ piece.Negative span := by
  have below_iff : ∀ {m : Int} {p : Span}, (if m < 0 then some p else none) = some span ↔ m < 0 ∧ p = span := by simp
  constructor
  · intro h
    cases piece with
    | cluster c =>
      obtain ⟨below, rfl⟩ := below_iff.mp h
      exact .count below
    | group id head =>
      obtain ⟨sign, magnitude, _, _⟩ := head
      -- Only in front of a minus is the magnitude not looked at.
      rcases sign with _ | ⟨_ | _, p⟩
      · cases magnitude with
        | none => cases h
        | some m =>
          obtain ⟨below, rfl⟩ := below_iff.mp h
          exact .magnitude (by simp) rfl below
      · cases magnitude with
        | none => cases h
        | some m =>
          obtain ⟨below, rfl⟩ := below_iff.mp h
          exact .magnitude (by simp) rfl below
      · cases h
        exact .sign rfl
    | plus source => cases h
  · rintro (below | @⟨id, ⟨sign, magnitude, _, _⟩, p, minus⟩ | @⟨id, ⟨sign, magnitude, _, _⟩, m, p, noMinus, hm, below⟩)
    · exact if_pos below
    · obtain rfl : sign = _ := minus
      rfl
    · obtain rfl : magnitude = _ := hm
      rcases sign with _ | ⟨_ | _, q⟩
      · exact if_pos below
      · exact if_pos below
      · exact absurd rfl noMinus

/-- The first piece of a row that is negative, a group in front of its body, is so at the span. -/
def Row.FirstNegative (row : Row) (span : Span) : Prop :=
  ∃ before part after, row.parts = before ++ part :: after ∧ part.piece.Negative span ∧
    ∀ other ∈ before, ∀ p, ¬other.piece.Negative p

/-- The span of the first negative piece. -/
def Row.negativeSpan? (row : Row) : Option Span :=
  row.parts.findSome? (·.piece.negativeSpan?)

theorem Piece.negativeSpan?_eq_none_iff {piece : Piece} : piece.negativeSpan? = none ↔ ∀ p, ¬piece.Negative p := by
  simp only [← negativeSpan?_eq_some_iff]
  exact Option.eq_none_iff_forall_ne_some

theorem Row.negativeSpan?_eq_some_iff {row : Row} {span : Span} :
    row.negativeSpan? = some span ↔ row.FirstNegative span := by
  simp only [negativeSpan?, FirstNegative, List.findSome?_eq_some_iff, Piece.negativeSpan?_eq_some_iff,
    Piece.negativeSpan?_eq_none_iff]

theorem Row.negativeSpan?_eq_none_iff {row : Row} :
    row.negativeSpan? = none ↔ ∀ part ∈ row.parts, ∀ span, ¬part.piece.Negative span := by
  simp only [negativeSpan?, List.findSome?_eq_none_iff, Piece.negativeSpan?_eq_none_iff]

namespace Layout

theorem refusal?_or (s : Settings) (x y : Option Span) : refusal? s (x.or y) = (refusal? s x).or (refusal? s y) := by
  unfold refusal?
  cases s.negatives with
  | mark => rfl
  | reject => cases x <;> rfl

theorem firstRefusal?_eq (s : Settings) (row : Row) (path : List GroupId) (next : Nat) :
    firstRefusal? s row = refusal? s ((row.partsIn path next).findSome? (·.piece.negativeSpan?)) := by
  have joins : ∀ path join rest, (Row.joinParts path join rest).findSome? (·.piece.negativeSpan?) = none :=
    fun path join rest => by
      unfold Row.joinParts
      rcases join with _ | ⟨_ | _, source⟩
      · rfl
      · rfl
      · cases rest.isEmpty <;> rfl
  have cons : ∀ (part : Part) parts, (part :: parts).findSome? (·.piece.negativeSpan?) =
      part.piece.negativeSpan?.or (parts.findSome? (·.piece.negativeSpan?)) := fun part parts => by
    rw [List.findSome?_cons]
    cases part.piece.negativeSpan? <;> rfl
  induction row generalizing path next with
  | nil =>
    unfold refusal?
    cases s.negatives <;> rfl
  | cluster c join rest ih =>
    rw [firstRefusal?, ih path next, Row.partsIn, cons, List.findSome?_append, joins, Option.none_or, refusal?_or]
    rfl
  | group h body join rest ihb ih =>
    rw [firstRefusal?, ihb (path ++ [⟨next⟩]) (next + 1), ih path (next + 1 + body.groupCount), Row.partsIn, cons,
      List.findSome?_append, List.findSome?_append, joins, Option.none_or, refusal?_or, refusal?_or]
    rfl

/-- What a row with no more dots than the limit comes to. -/
theorem ofRow_of_dotCount_le {s : Settings} {row : Row} (within : row.dotCount ≤ s.maxElements) :
    ofRow s row =
      match refusal? s row.negativeSpan? with
      | some fault => .error fault
      | none => .ok (drawn s.spacing row.events).layout := by
  have first : firstRefusal? s row = refusal? s row.negativeSpan? := firstRefusal?_eq s row [] 0
  rw [ofRow, if_pos within, place_eq, first]
  cases refusal? s row.negativeSpan? <;> rfl

/-! ### The limit of dots -/

/-- The span of the first term of a row with which the dots are more than the limit. -/
def ExceedsAt (limit : Nat) (row : Row) (span : Span) : Prop :=
  ∃ front e back, row.toList = front ++ e :: back ∧ e.term.span = span ∧ Entry.dotTotal front ≤ limit ∧
    limit < Entry.dotTotal (front ++ [e])

section Excess
variable {limit count : Nat} (room : limit < Word.greatest)
include room

/-- Below the greatest word a sum in words tells whether the sum is over the limit. -/
theorem excess?_cons (e : Entry) (rest : Row) :
    excess? limit count (.cons e rest) =
      if limit < count + e.term.dotTotal then some e.term.span else excess? limit (count + e.term.dotTotal) rest := by
  have words : ∀ n m span, Word.add count n = min (count + m) Word.greatest →
      (if limit < Word.add count n then some span else excess? limit (Word.add count n) rest) =
        if limit < count + m then some span else excess? limit (count + m) rest := by
    intro n m span hn
    rw [hn]
    by_cases hover : limit < count + m
    · rw [if_pos hover, if_pos (Nat.lt_min.mpr ⟨hover, room⟩)]
    · have hle := Nat.le_of_not_lt hover
      rw [Nat.min_eq_left (Nat.le_of_lt (Nat.lt_of_le_of_lt hle room))]
  obtain ⟨t, join⟩ := e
  cases t with
  | cluster c => exact words c.magnitude c.count.natAbs c.span rfl
  | group h body =>
    refine words body.dotCount body.dotTotal h.span ?_
    rw [Row.dotCount_eq_min, Word.add]
    omega

theorem exists_of_excess? (entries : List Entry) (hcount : count ≤ limit)
    (beyond : limit < count + Entry.dotTotal entries) :
    ∃ front e back, entries = front ++ e :: back ∧ excess? limit count (.ofList entries) = some e.term.span ∧
      count + Entry.dotTotal front ≤ limit ∧ limit < count + Entry.dotTotal (front ++ [e]) := by
  have cons : ∀ e es, Entry.dotTotal (e :: es) = e.term.dotTotal + Entry.dotTotal es := fun e es => List.sum_cons
  induction entries generalizing count with
  | nil => exact absurd beyond (Nat.not_lt_of_le hcount)
  | cons e entries ih =>
    have first : excess? limit count (.ofList (e :: entries)) = _ := excess?_cons room e (.ofList entries)
    by_cases hover : limit < count + e.term.dotTotal
    · refine ⟨[], e, entries, rfl, by rw [first, if_pos hover], hcount, ?_⟩
      rw [List.nil_append, cons]
      exact Nat.lt_of_lt_of_le hover (by omega)
    · rw [cons, ← Nat.add_assoc] at beyond
      obtain ⟨front, f, back, rfl, hspan, hfront, hlast⟩ := ih (Nat.le_of_not_lt hover) beyond
      refine ⟨e :: front, f, back, rfl, by rw [first, if_neg hover, hspan], ?_, ?_⟩
      · rwa [cons, ← Nat.add_assoc]
      · rwa [List.cons_append, cons, ← Nat.add_assoc]

end Excess

/-- How the limit of dots applies to a row. -/
structure Budgeted (s : Settings) (row : Row) : Prop where
  words : row.dotCount = min row.dotTotal Word.greatest
  refused : (∃ count limit span, ofRow s row = .error (.tooManyDots count limit span)) ↔ s.maxElements < row.dotCount
  fault : ∀ count limit span, ofRow s row = .error (.tooManyDots count limit span) →
    count = row.dotCount ∧ limit = s.maxElements ∧ ExceedsAt s.maxElements row span
  placed : ∀ l, ofRow s row = .ok l → row.dotTotal ≤ Word.greatest →
    l.elements.size = row.dotTotal ∧ row.dotTotal ≤ s.maxElements

theorem ofRow_of_lt_dotCount {s : Settings} {row : Row} (beyond : s.maxElements < row.dotCount) :
    ∃ span, ofRow s row = .error (.tooManyDots row.dotCount s.maxElements span) ∧ ExceedsAt s.maxElements row span := by
  have words := row.dotCount_eq_min
  have room : s.maxElements < Word.greatest := by omega
  have total : s.maxElements < 0 + Entry.dotTotal row.toList := by
    rw [row.dotTotal_toList]
    omega
  obtain ⟨front, e, back, hsplit, hspan, hfront, hlast⟩ := exists_of_excess? room row.toList (Nat.zero_le _) total
  rw [Row.ofList_toList] at hspan
  rw [Nat.zero_add] at hfront hlast
  refine ⟨e.term.span, ?_, front, e, back, hsplit, rfl, hfront, hlast⟩
  rw [ofRow, if_neg (Nat.not_le_of_lt beyond), hspan]
  rfl

theorem ofRow_ne_tooManyDots {s : Settings} {row : Row} (within : row.dotCount ≤ s.maxElements) (count limit : Nat)
    (span : Span) : ofRow s row ≠ .error (.tooManyDots count limit span) := by
  rw [ofRow_of_dotCount_le within, refusal?]
  cases s.negatives with
  | mark => exact nofun
  | reject =>
    cases row.negativeSpan? with
    | none => exact nofun
    | some p => exact nofun

/-- A row is refused for its dots if and only if they are more than the limit, at the first term that goes beyond it,
    and else its layout has as many elements. -/
theorem budgeted_of_ofRow (s : Settings) (row : Row) : Budgeted s row := by
  have lt_of_error : ∀ {count limit span}, ofRow s row = .error (.tooManyDots count limit span) →
      s.maxElements < row.dotCount := fun h =>
    Nat.lt_of_not_le fun within => ofRow_ne_tooManyDots within _ _ _ h
  constructor
  case words => exact row.dotCount_eq_min
  case refused =>
    constructor
    · rintro ⟨count, limit, span, h⟩
      exact lt_of_error h
    · intro beyond
      obtain ⟨span, h, -⟩ := ofRow_of_lt_dotCount beyond
      exact ⟨_, _, span, h⟩
  case fault =>
    intro count limit span h
    obtain ⟨p, hp, exceeds⟩ := ofRow_of_lt_dotCount (lt_of_error h)
    rw [hp] at h
    cases h
    exact ⟨rfl, rfl, exceeds⟩
  case placed =>
    intro l h fits
    obtain ⟨within, -, rfl⟩ := ofRow_eq_ok_iff.mp h
    rw [row.dotCount_eq_min, Nat.min_eq_left fits] at within
    exact ⟨(drawn_elements_size s.spacing row.events).trans row.countP_isDot_events, within⟩

/-! ### The policy on negative pieces -/

/-- How the policy on what is negative applies to a row. -/
structure Policed (s : Settings) (row : Row) : Prop where
  mark : ∀ span, ofRow { s with negatives := .mark } row ≠ .error (.negative span)
  reject : (∃ span, ofRow { s with negatives := .reject } row = .error (.negative span)) ↔
    ∃ part ∈ row.parts, ∃ span, part.piece.Negative span
  first : ∀ span, ofRow { s with negatives := .reject } row = .error (.negative span) → row.FirstNegative span
  same : (∀ part ∈ row.parts, ∀ span, ¬part.piece.Negative span) →
    ofRow { s with negatives := .reject } row = ofRow { s with negatives := .mark } row

/-- A row that is not refused for its dots is refused for its first negative piece, if the settings reject these. -/
theorem policed_of_dotCount_le {s : Settings} {row : Row} (within : row.dotCount ≤ s.maxElements) : Policed s row := by
  have mark : ofRow { s with negatives := .mark } row = .ok (drawn s.spacing row.events).layout :=
    ofRow_of_dotCount_le within
  have reject : ofRow { s with negatives := .reject } row =
      match row.negativeSpan? with
      | some span => .error (.negative span)
      | none => .ok (drawn s.spacing row.events).layout := by
    rw [ofRow_of_dotCount_le (s := { s with negatives := .reject }) within]
    cases row.negativeSpan? <;> rfl
  constructor
  case mark =>
    intro span h
    rw [mark] at h
    cases h
  case reject =>
    constructor
    · rintro ⟨span, h⟩
      by_contra none
      push Not at none
      rw [reject, Row.negativeSpan?_eq_none_iff.mpr none] at h
      cases h
    · rintro ⟨part, hpart, span, negative⟩
      rw [reject]
      cases hfirst : row.negativeSpan? with
      | none => exact absurd negative (Row.negativeSpan?_eq_none_iff.mp hfirst part hpart span)
      | some p => exact ⟨p, rfl⟩
  case first =>
    intro span h
    rw [reject] at h
    refine Row.negativeSpan?_eq_some_iff.mp ?_
    split at h
    · next p hp =>
      cases h
      exact hp
    · cases h
  case same =>
    intro none
    rw [mark, reject, Row.negativeSpan?_eq_none_iff.mpr none]

/-- A negative magnitude under a plus, behind a group without dots and in front of other negative pieces. -/
theorem policed_of_negative_magnitude :
    let e : Symbol := ⟨'e', by decide +kernel⟩
    let plus (start : Nat) : Option (Located Join) := some ⟨.plus, ⟨start, start + 1⟩⟩
    let body : Row := .cluster ⟨-3, e, ⟨7, 10⟩⟩ none .nil
    let minus : Row := .group ⟨some ⟨.minus, ⟨12, 13⟩⟩, none, ⟨13, 15⟩, ⟨12, 15⟩⟩ .nil none .nil
    let row : Row := .group ⟨none, none, ⟨0, 2⟩, ⟨0, 2⟩⟩ .nil (plus 2)
      (.group ⟨some ⟨.plus, ⟨3, 4⟩⟩, some ⟨-2, ⟨4, 6⟩⟩, ⟨6, 11⟩, ⟨3, 11⟩⟩ body (plus 11) minus)
    row.dotCount ≤ 3 ∧ Policed { maxElements := 3 } row ∧
      ofRow { maxElements := 3, negatives := .reject } row = .error (.negative ⟨4, 6⟩) := by
  intro e plus body minus row
  have within : row.dotCount ≤ 3 := by decide +kernel
  exact ⟨within, policed_of_dotCount_le within, rfl⟩

end Layout

end Dotwork
