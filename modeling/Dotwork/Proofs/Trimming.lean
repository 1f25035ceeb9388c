import Dotwork.Proofs.Refusals

/-!
# Joins that tie nothing

The join behind the last term of a row ties it to nothing. The text of a row, the number of its dots and its layout are
each found by a walk of their own over the row, and all three pass over such joins, at every depth. So rows that
differ only in these, and in the places of their parts, cannot be told apart but by the places.
-/

namespace Dotwork

open Layout (GroupId)

/-! ### Trimming -/

namespace Row

/-- The join in front of the rest of a row, if there is a rest. -/
def trimJoin (join : Option (Located Join)) (rest : Row) : Option (Located Join) :=
  if rest.isEmpty then none else join

/-- A row without the joins behind the last terms of its levels. -/
def trim : Row → Row
  | .nil => .nil
  | .cluster c join rest => .cluster c (trimJoin join rest) rest.trim
  | .group h body join rest => .group h body.trim (trimJoin join rest) rest.trim

section Join
variable (join : Option (Located Join)) (rest : Row)

theorem isEmpty_trim : rest.trim.isEmpty = rest.isEmpty := by
  cases rest <;> rfl

theorem joinChars_trim : joinChars (trimJoin join rest) rest.trim = joinChars join rest := by
  unfold joinChars trimJoin
  rw [isEmpty_trim]
  cases rest.isEmpty <;> rfl

theorem joinEvents_trim : joinEvents (trimJoin join rest) rest.trim = joinEvents join rest := by
  unfold joinEvents trimJoin
  rw [isEmpty_trim]
  cases rest.isEmpty <;> rfl

theorem joinParts_trim (path : List GroupId) :
    joinParts path (trimJoin join rest) rest.trim = joinParts path join rest := by
  unfold joinParts trimJoin
  rw [isEmpty_trim]
  cases rest.isEmpty with
  | true => rcases join with _ | ⟨_ | _, source⟩ <;> rfl
  | false => rfl

end Join

theorem chars_trim (row : Row) : row.trim.chars = row.chars := by
  induction row with
  | nil => rfl
  | cluster c join rest ih => rw [trim, chars, joinChars_trim, ih, chars]
  | group h body join rest ihb ih => rw [trim, chars, joinChars_trim, ihb, ih, chars]

theorem text_trim (row : Row) : row.trim.text = row.text := by
  rw [text, chars_trim, text]

theorem events_trim (row : Row) : row.trim.events = row.events := by
  induction row with
  | nil => rfl
  | cluster c join rest ih => rw [trim, events, joinEvents_trim, ih, events]
  | group h body join rest ihb ih => rw [trim, events, joinEvents_trim, ihb, ih, events]

theorem groupCount_trim (row : Row) : row.trim.groupCount = row.groupCount := by
  rw [← openings_events, events_trim, openings_events]

theorem partsIn_trim (row : Row) (path : List GroupId) (next : Nat) :
    row.trim.partsIn path next = row.partsIn path next := by
  induction row generalizing path next with
  | nil => rfl
  | cluster c join rest ih => rw [trim, partsIn, joinParts_trim, ih, partsIn]
  | group h body join rest ihb ih => rw [trim, partsIn, joinParts_trim, groupCount_trim, ihb, ih, partsIn]

theorem dotTotal_trim (row : Row) : row.trim.dotTotal = row.dotTotal := by
  rw [← countP_isDot_events, events_trim, countP_isDot_events]

theorem dotCount_trim (row : Row) : row.trim.dotCount = row.dotCount := by
  rw [dotCount_eq_min, dotTotal_trim, dotCount_eq_min]

/-- Each term has as many dots as before. -/
theorem map_dotTotal_trim (row : Row) :
    row.trim.toList.map (·.term.dotTotal) = row.toList.map (·.term.dotTotal) := by
  induction row with
  | nil => rfl
  | cluster c join rest ih => exact congrArg₂ List.cons rfl ih
  | group h body join rest _ ih => exact congrArg₂ List.cons body.dotTotal_trim ih

end Row

/-! ### Parts without places -/

def Piece.forget : Piece → Piece
  | .cluster c => .cluster c.forget
  | .group id h => .group id h.forget
  | .plus _ => .plus default

def Part.forget (p : Part) : Part :=
  ⟨p.path, p.piece.forget⟩

theorem Piece.isSome_negativeSpan?_forget (piece : Piece) :
    piece.forget.negativeSpan?.isSome = piece.negativeSpan?.isSome := by
  cases piece with
  | cluster c => exact c.isSome_negativeSpan?_forget
  | group _ h => exact h.isNegated_forget
  | plus _ => rfl

namespace Row

theorem groupCount_forget (row : Row) : row.forget.groupCount = row.groupCount := by
  induction row with
  | nil => rfl
  | cluster c join rest ih => exact ih
  | group h body join rest ihb ih => simp only [forget, groupCount, ihb, ih]

theorem joinParts_forget (path : List GroupId) (join : Option (Located Join)) (rest : Row) :
    joinParts path (join.map Located.forget) rest.forget = (joinParts path join rest).map Part.forget := by
  unfold joinParts
  rw [isEmpty_forget]
  rcases join with _ | ⟨_ | _, source⟩
  · rfl
  · rfl
  · cases rest.isEmpty <;> rfl

theorem partsIn_forget (row : Row) (path : List GroupId) (next : Nat) :
    row.forget.partsIn path next = (row.partsIn path next).map Part.forget := by
  induction row generalizing path next with
  | nil => rfl
  | cluster c join rest ih =>
    simp only [forget, partsIn, joinParts_forget, ih, List.map_cons, List.map_append]
    rfl
  | group h body join rest ihb ih =>
    simp only [forget, partsIn, joinParts_forget, groupCount_forget, ihb, ih, List.map_cons, List.map_append]
    rfl

theorem dotTotal_forget (row : Row) : row.forget.dotTotal = row.dotTotal := by
  induction row with
  | nil => rfl
  | cluster c join rest ih => simp only [forget, dotTotal, ih]
  | group h body join rest ihb ih => simp only [forget, dotTotal, ihb, ih]

theorem map_dotTotal_forget (row : Row) :
    row.forget.toList.map (·.term.dotTotal) = row.toList.map (·.term.dotTotal) := by
  induction row with
  | nil => rfl
  | cluster c join rest ih => exact congrArg₂ List.cons rfl ih
  | group h body join rest _ ih => exact congrArg₂ List.cons body.dotTotal_forget ih

end Row

/-! ### What stands in the same place in two rows -/

/-- Lists whose members are alike, one by one, have their first finds in the same place. -/
theorem findSome?_of_map_eq {α β γ : Type} {f : α → Option β} {g : α → γ}
    (keep : ∀ x y, g x = g y → (f x).isSome = (f y).isSome) {xs ys : List α} (h : xs.map g = ys.map g) :
    (xs.findSome? f = none ∧ ys.findSome? f = none) ∨
      ∃ (n : Nat) (x y : α) (p q : β), xs[n]? = some x ∧ ys[n]? = some y ∧ g y = g x ∧ f x = some p ∧ f y = some q ∧
        xs.findSome? f = some p ∧ ys.findSome? f = some q := by
  induction xs generalizing ys with
  | nil =>
    cases ys with
    | nil => exact Or.inl ⟨rfl, rfl⟩
    | cons y ys => cases h
  | cons x xs ih =>
    cases ys with
    | nil => cases h
    | cons y ys =>
      obtain ⟨hxy, htail⟩ := List.cons.inj h
      have same := keep x y hxy
      cases hx : f x with
      | some p =>
        rw [hx] at same
        obtain ⟨q, hy⟩ := Option.isSome_iff_exists.mp same.symm
        exact Or.inr ⟨0, x, y, p, q, rfl, rfl, hxy.symm, hx, hy, by rw [List.findSome?_cons, hx],
          by rw [List.findSome?_cons, hy]⟩
      | none =>
        rw [hx] at same
        have hy : f y = none := Option.isSome_eq_false_iff.mp same.symm |> Option.isNone_iff_eq_none.mp
        simp only [List.findSome?_cons, hx, hy]
        exact (ih htail).imp_right fun ⟨n, rest⟩ => ⟨n + 1, rest⟩

namespace Layout

/-- Rows whose terms have the same dots, one by one, go over a limit with terms in the same place. -/
theorem excess?_of_map_eq {limit count : Nat} (room : limit < Word.greatest) {xs ys : List Entry}
    (h : xs.map (·.term.dotTotal) = ys.map (·.term.dotTotal)) :
    (excess? limit count (.ofList xs) = none ∧ excess? limit count (.ofList ys) = none) ∨
      ∃ (n : Nat) (e e' : Entry), xs[n]? = some e ∧ ys[n]? = some e' ∧
        excess? limit count (.ofList xs) = some e.term.span ∧
        excess? limit count (.ofList ys) = some e'.term.span := by
  induction xs generalizing ys count with
  | nil =>
    cases ys with
    | nil => exact Or.inl ⟨rfl, rfl⟩
    | cons e' ys => cases h
  | cons e xs ih =>
    cases ys with
    | nil => cases h
    | cons e' ys =>
      obtain ⟨hdots, htail⟩ := List.cons.inj h
      change e.term.dotTotal = e'.term.dotTotal at hdots
      have first : excess? limit count (.ofList (e :: xs)) = _ := excess?_cons room e (.ofList xs)
      have first' : excess? limit count (.ofList (e' :: ys)) = _ := excess?_cons room e' (.ofList ys)
      rw [← hdots] at first'
      rw [first, first']
      by_cases hover : limit < count + e.term.dotTotal
      · rw [if_pos hover, if_pos hover]
        exact Or.inr ⟨0, e, e', rfl, rfl, rfl, rfl⟩
      · rw [if_neg hover, if_neg hover]
        exact (ih htail).imp_right fun ⟨n, rest⟩ => ⟨n + 1, rest⟩

/-- What two rows come to under the same settings: layouts that differ only in sources, or the same refusal, for parts
    or for terms that stand in the same place in both. -/
inductive Corresponds (s : Settings) (a b : Row) : Prop
  | placed (l l' : Layout) (left : ofRow s a = .ok l) (right : ofRow s b = .ok l') (same : l'.forget = l.forget)
  | negative (n : Nat) (p p' : Part) (span span' : Span) (here : a.parts[n]? = some p) (there : b.parts[n]? = some p')
    (same : p'.forget = p.forget) (cause : p.piece.Negative span) (cause' : p'.piece.Negative span')
    (left : ofRow s a = .error (.negative span)) (right : ofRow s b = .error (.negative span'))
  | excess (n : Nat) (e e' : Entry) (here : a.toList[n]? = some e) (there : b.toList[n]? = some e')
    (left : ofRow s a = .error (.tooManyDots a.dotCount s.maxElements e.term.span))
    (right : ofRow s b = .error (.tooManyDots a.dotCount s.maxElements e'.term.span))

section Alike
variable {a b : Row} (h : a.trim.Alike b.trim)
include h

theorem parts_of_trim : a.parts.map Part.forget = b.parts.map Part.forget := by
  have parts : ∀ row : Row, row.trim.forget.partsIn [] 0 = row.parts.map Part.forget := fun row => by
    rw [Row.partsIn_forget, Row.partsIn_trim, Row.parts]
  rw [← parts a, ← parts b, show a.trim.forget = b.trim.forget from h]

theorem dotTotals_of_trim : a.toList.map (·.term.dotTotal) = b.toList.map (·.term.dotTotal) := by
  rw [← a.map_dotTotal_trim, ← b.map_dotTotal_trim, ← a.trim.map_dotTotal_forget, ← b.trim.map_dotTotal_forget,
    show a.trim.forget = b.trim.forget from h]

theorem dotCount_of_trim : a.dotCount = b.dotCount := by
  rw [← a.dotCount_trim, ← b.dotCount_trim, ← a.trim.dotCount_forget, ← b.trim.dotCount_forget,
    show a.trim.forget = b.trim.forget from h]

theorem layout_of_trim (s : Spacing) :
    (drawn s b.events).layout.forget = (drawn s a.events).layout.forget := by
  rw [← a.events_trim, ← b.events_trim]
  exact (layout_forget_of_alike s h).symm

theorem corresponds_of_trim (s : Settings) : Corresponds s a b := by
  have hcount := dotCount_of_trim h
  have same := layout_of_trim h s.spacing
  by_cases within : a.dotCount ≤ s.maxElements
  · have left := ofRow_of_dotCount_le within
    have right := ofRow_of_dotCount_le (hcount ▸ within)
    unfold refusal? at left right
    cases hpolicy : s.negatives with
    | mark =>
      rw [hpolicy] at left right
      exact .placed _ _ left right same
    | reject =>
      rw [hpolicy] at left right
      -- The first negative parts stand in the same place, if there are any.
      have keep : ∀ p p' : Part, p.forget = p'.forget →
          p.piece.negativeSpan?.isSome = p'.piece.negativeSpan?.isSome := fun p p' hp => by
        rw [← p.piece.isSome_negativeSpan?_forget, ← p'.piece.isSome_negativeSpan?_forget,
          show p.piece.forget = p'.piece.forget from congrArg Part.piece hp]
      rcases findSome?_of_map_eq keep (parts_of_trim h) with
        ⟨ha, hb⟩ | ⟨n, p, p', span, span', here, there, hp, cause, cause', ha, hb⟩
      · rw [show a.negativeSpan? = none from ha] at left
        rw [show b.negativeSpan? = none from hb] at right
        exact .placed _ _ left right same
      · rw [show a.negativeSpan? = some span from ha] at left
        rw [show b.negativeSpan? = some span' from hb] at right
        exact .negative n p p' span span' here there hp (Piece.negativeSpan?_eq_some_iff.mp cause)
          (Piece.negativeSpan?_eq_some_iff.mp cause') left right
  · have hwords := a.dotCount_eq_min
    have room : s.maxElements < Word.greatest := by omega
    have total : s.maxElements < 0 + Entry.dotTotal a.toList := by
      rw [a.dotTotal_toList]
      omega
    have left : ofRow s a = .error (.tooManyDots a.dotCount s.maxElements ((excess? s.maxElements 0 a).getD default)) :=
      if_neg within
    have right : ofRow s b =
        .error (.tooManyDots a.dotCount s.maxElements ((excess? s.maxElements 0 b).getD default)) := by
      rw [hcount] at within ⊢
      exact if_neg within
    rw [← a.ofList_toList] at left
    rw [← b.ofList_toList] at right
    rcases excess?_of_map_eq room (dotTotals_of_trim h) with ⟨ha, -⟩ | ⟨n, e, e', here, there, ha, hb⟩
    · obtain ⟨front, e, back, -, hspan, -⟩ := exists_of_excess? room a.toList (Nat.zero_le _) total
      rw [ha] at hspan
      cases hspan
    · rw [ha, a.ofList_toList] at left
      rw [hb, b.ofList_toList] at right
      exact .excess n e e' here there left right

end Alike

end Layout

/-- What two rows have in common that differ only in places and in joins that tie nothing. -/
structure Row.Interchangeable (a b : Row) : Prop where
  text : a.text = b.text
  dotCount : a.dotCount = b.dotCount
  layout : ∀ s, Layout.Corresponds s a b

/-- Rows that differ only in places and in joins behind last terms are written, counted and placed alike. -/
theorem Row.interchangeable_of_trim {a b : Row} (h : a.trim.Alike b.trim) : Interchangeable a b where
  text := by rw [← a.text_trim, ← b.text_trim, Alike.text_eq h]
  dotCount := Layout.dotCount_of_trim h
  layout := Layout.corresponds_of_trim h

/-- A plus behind the last term of the body, another one behind the group, and a negative count in between. -/
theorem Row.interchangeable_of_stray_joins :
    let g : Symbol := ⟨'g', by decide +kernel⟩
    let plus (start : Nat) : Option (Located Join) := some ⟨.plus, ⟨start, start + 1⟩⟩
    let body (start : Nat) (join : Option (Located Join)) : Row := .cluster ⟨-2, g, ⟨start, start + 3⟩⟩ join .nil
    let a : Row := .group ⟨none, none, ⟨0, 6⟩, ⟨0, 6⟩⟩ (body 1 (plus 4)) (plus 6) .nil
    let b : Row := .group ⟨none, none, ⟨2, 7⟩, ⟨2, 7⟩⟩ (body 3 none) none .nil
    a.trim.Alike b.trim ∧ Interchangeable a b ∧ a.text = "(-2g)" ∧
      Layout.ofRow { negatives := .reject } a = .error (.negative ⟨1, 4⟩) ∧
      Layout.ofRow { negatives := .reject } b = .error (.negative ⟨3, 6⟩) ∧
      Layout.ofRow { maxElements := 1 } b = .error (.tooManyDots 2 1 ⟨2, 7⟩) := by
  intro g plus body a b
  have h : a.trim.Alike b.trim := rfl
  exact ⟨h, interchangeable_of_trim h, by decide +kernel, rfl, rfl, rfl⟩

end Dotwork
