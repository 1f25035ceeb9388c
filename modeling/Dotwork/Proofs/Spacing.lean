import Dotwork.Proofs.Places
import Mathlib.Algebra.Order.BigOperators.Group.List
import Mathlib.Algebra.Order.Group.Nat

/-!
# Spacing

The widths of what is not a dot decide in which columns the parts of a row stand, and nothing else: a row has a layout
under every spacing or under none, with the same elements, groups and markers in it. Where no width gets less nothing
moves to the left, also where the columns come up to the greatest word.
-/

namespace Dotwork

/-- No width of the first spacing is more than that of the second. -/
structure Spacing.Narrower (s t : Spacing) : Prop where
  spaceGap : s.spaceGap ≤ t.spaceGap
  unionGap : s.unionGap ≤ t.unionGap
  groupPadding : s.groupPadding ≤ t.groupPadding
  zeroWidth : s.zeroWidth ≤ t.zeroWidth

/-- The middle of a range moves with its bounds, also where the range gets shorter. -/
theorem Grid.Columns.middle_le_middle {r r' : Columns} (start : r.start ≤ r'.start) (stop : r.stop ≤ r'.stop) :
    r.middle ≤ r'.middle := by
  unfold middle width
  omega

namespace Event
variable {s t : Spacing}

theorem width_le_width (h : s.Narrower t) (e : Event) : e.width s ≤ e.width t := by
  cases e with
  | dot => exact Nat.le_refl 1
  | zero => exact h.zeroWidth
  | space => exact h.spaceGap
  | plus => exact h.unionGap
  | opening | closing => exact h.groupPadding

theorem extent_le_extent (h : s.Narrower t) (es : List Event) : extent s es ≤ extent t es := by
  have hsum : (es.map (width s)).sum ≤ (es.map (width t)).sum := List.sum_le_sum fun e _ => width_le_width h e
  unfold extent
  omega

end Event

namespace Layout

/-! ### Without columns -/

def Element.forgetColumn (e : Element) : Element :=
  { e with position := ⟨0, e.position.depth⟩ }

def Boundary.forgetColumns (b : Boundary) : Boundary :=
  { b with columns := default }

def Marker.forgetColumn (m : Marker) : Marker :=
  { m with column := 0 }

/-- A layout without the columns of its members and without its width. -/
def forgetColumns (l : Layout) : Layout :=
  ⟨l.elements.map Element.forgetColumn, l.groups.map Boundary.forgetColumns, l.unions.map Marker.forgetColumn, 0⟩

/-- No member of the first layout stands further to the right than its counterpart in the second. -/
structure Leftward (l l' : Layout) : Prop where
  element : ∀ (i : Nat) e e', l.elements[i]? = some e → l'.elements[i]? = some e' →
    e.position.column ≤ e'.position.column
  group : ∀ (i : Nat) b b', l.groups[i]? = some b → l'.groups[i]? = some b' →
    b.columns.start ≤ b'.columns.start ∧ b.columns.stop ≤ b'.columns.stop
  marker : ∀ (i : Nat) m m', l.unions[i]? = some m → l'.unions[i]? = some m' → m.column ≤ m'.column
  width : l.width ≤ l'.width

/-! ### Members under every spacing -/

section Members
variable {i : Nat}

theorem exists_elementAt {es : List Event} (hi : i < es.countP Event.isDot) :
    ∃ before c, ∀ s, (drawn s es).elements[i]? = some (elementAt s before c) := by
  obtain ⟨before, e, after, hsplit, he, rfl⟩ := exists_split_of_lt_countP hi
  cases e with
  | dot c => exact ⟨before, c, fun s => getElem?_drawn_elements s es hsplit⟩
  | zero | space | plus | opening | closing => cases he

theorem exists_markerAt {es : List Event} (hi : i < es.countP Event.isPlus) :
    ∃ before source, ∀ s, (drawn s es).unions[i]? = some (markerAt s before source) := by
  obtain ⟨before, e, after, hsplit, he, rfl⟩ := exists_split_of_lt_countP hi
  cases e with
  | plus source => exact ⟨before, source, fun s => getElem?_drawn_unions s es hsplit⟩
  | dot | zero | space | opening | closing => cases he

theorem exists_boundaryAt {row : Row} (hi : i < row.events.countP Event.isOpening) :
    ∃ before h inside, ∀ s, (drawn s row.events).groups[i]? = some (boundaryAt s before h inside) := by
  obtain ⟨before, e, after, hsplit, he, rfl⟩ := exists_split_of_lt_countP hi
  cases e with
  | opening h =>
    obtain ⟨inside, behind, rfl, balanced⟩ := Row.exists_closing hsplit
    refine ⟨before, h, inside, fun s => ?_⟩
    rw [hsplit, ← Event.openings_brackets]
    exact drawn_group s before h behind balanced
  | dot | zero | space | plus | closing => cases he

/-- Two arrays are the same after a map if it makes the same of each two members with one number. -/
theorem map_eq_map_of_getElem? {α β : Type} {f : α → β} {xs ys : Array α} {n : Nat} (hx : xs.size = n)
    (hy : ys.size = n) (same : ∀ i < n, xs[i]?.map f = ys[i]?.map f) : xs.map f = ys.map f := by
  apply Array.ext_getElem?
  intro i
  rw [Array.getElem?_map, Array.getElem?_map]
  rcases Nat.lt_or_ge i n with hi | hi
  · exact same i hi
  · rw [Array.getElem?_eq_none (hx ▸ hi), Array.getElem?_eq_none (hy ▸ hi)]

end Members

section Respaced
variable (s t : Spacing) (row : Row)

theorem drawn_openings : (drawn s row.events).groups.size = row.events.countP Event.isOpening := by
  rw [drawn_groups_size, Event.openings_brackets]

/-- The events of a row draw the same under every spacing, but for the columns. -/
theorem forgetColumns_drawn :
    (drawn t row.events).layout.forgetColumns = (drawn s row.events).layout.forgetColumns := by
  have elements : (drawn t row.events).elements.map Element.forgetColumn =
      (drawn s row.events).elements.map Element.forgetColumn :=
    map_eq_map_of_getElem? (drawn_elements_size t row.events) (drawn_elements_size s row.events) fun i hi => by
      obtain ⟨before, c, h⟩ := exists_elementAt hi
      rw [h, h]
      rfl
  have groups : (drawn t row.events).groups.map Boundary.forgetColumns =
      (drawn s row.events).groups.map Boundary.forgetColumns :=
    map_eq_map_of_getElem? (drawn_openings t row) (drawn_openings s row) fun i hi => by
      obtain ⟨before, head, inside, h⟩ := exists_boundaryAt hi
      rw [h, h]
      rfl
  have unions : (drawn t row.events).unions.map Marker.forgetColumn =
      (drawn s row.events).unions.map Marker.forgetColumn :=
    map_eq_map_of_getElem? (drawn_unions_size t row.events) (drawn_unions_size s row.events) fun i hi => by
      obtain ⟨before, source, h⟩ := exists_markerAt hi
      rw [h, h]
      rfl
  simp only [forgetColumns, Canvas.layout, elements, groups, unions]

variable {s t}

theorem leftward_drawn (h : s.Narrower t) :
    (drawn s row.events).layout.Leftward (drawn t row.events).layout := by
  have lt_of_some : ∀ {α : Type} {xs : Array α} {i n : Nat} {x : α}, xs.size = n → xs[i]? = some x → i < n :=
    fun hn hx => hn ▸ (Array.getElem?_eq_some_iff.mp hx).1
  constructor
  case element =>
    intro i e e' he he'
    obtain ⟨before, c, hc⟩ := exists_elementAt (lt_of_some (drawn_elements_size s row.events) he)
    cases (hc s).symm.trans he
    cases (hc t).symm.trans he'
    exact Event.extent_le_extent h before
  case group =>
    intro i b b' hb hb'
    obtain ⟨before, head, inside, hc⟩ := exists_boundaryAt (lt_of_some (drawn_openings s row) hb)
    cases (hc s).symm.trans hb
    cases (hc t).symm.trans hb'
    exact ⟨Event.extent_le_extent h _, Event.extent_le_extent h _⟩
  case marker =>
    intro i m m' hm hm'
    obtain ⟨before, source, hc⟩ := exists_markerAt (lt_of_some (drawn_unions_size s row.events) hm)
    cases (hc s).symm.trans hm
    cases (hc t).symm.trans hm'
    exact Grid.Columns.middle_le_middle (Event.extent_le_extent h _) (Event.extent_le_extent h _)
  case width =>
    have hwidth : ∀ u, (drawn u row.events).layout.width = Event.extent u row.events := fun u =>
      drawn_position u row.events
    rw [hwidth, hwidth]
    exact Event.extent_le_extent h row.events

end Respaced

/-! ### One row under two spacings -/

/-- What keeps a row from a layout does not depend on the spacing. -/
theorem firstRefusal?_spacing (s : Settings) (t : Spacing) (row : Row) :
    firstRefusal? { s with spacing := t } row = firstRefusal? s row := by
  induction row with
  | nil => rfl
  | cluster c join rest ih =>
    rw [firstRefusal?, ih]
    rfl
  | group h body join rest ihb ih =>
    rw [firstRefusal?, ihb, ih]
    rfl

/-- Two spacings give a row the same layout, but for the columns, which do not get less where no width does; or the
    row is refused under both for the same reason. -/
theorem ofRow_respaced (s : Settings) (t : Spacing) (row : Row) :
    (∃ l l', ofRow s row = .ok l ∧ ofRow { s with spacing := t } row = .ok l' ∧
      l'.forgetColumns = l.forgetColumns ∧ (s.spacing.Narrower t → l.Leftward l')) ∨
      ∃ f, ofRow s row = .error f ∧ ofRow { s with spacing := t } row = .error f := by
  unfold ofRow
  simp only [place_eq, firstRefusal?_spacing]
  split
  · cases firstRefusal? s row with
    | some f => exact Or.inr ⟨f, rfl, rfl⟩
    | none => exact Or.inl ⟨_, _, rfl, rfl, forgetColumns_drawn s.spacing t row, leftward_drawn row⟩
  · exact Or.inr ⟨_, rfl, rfl⟩

/-- A wider gap moves the dots behind it up to the greatest word and leaves the marker between them where it was. -/
theorem ofRow_respaced_of_clipped_gap :
    let f : Symbol := ⟨'f', by decide +kernel⟩
    let dot (join : Option (Located Join)) (rest : Row) : Row := .cluster ⟨1, f, default⟩ join rest
    let row : Row := dot (some ⟨.space, default⟩) (dot (some ⟨.plus, default⟩) (dot none .nil))
    let s : Settings := { spacing := { spaceGap := Word.greatest - 4 } }
    let t : Spacing := { spaceGap := Word.greatest - 3, unionGap := 9 }
    s.spacing.Narrower t ∧ ∃ l l', ofRow s row = .ok l ∧ ofRow { s with spacing := t } row = .ok l' ∧
      l'.forgetColumns = l.forgetColumns ∧ l.Leftward l' ∧
      l.elements.toList.map (·.position.column) = [0, Word.greatest - 3, Word.greatest] ∧
      l'.elements.toList.map (·.position.column) = [0, Word.greatest - 2, Word.greatest] ∧
      l.unions.toList.map (·.column) = [Word.greatest - 1] ∧
      l'.unions.toList.map (·.column) = [Word.greatest - 1] := by
  intro f dot row s t
  have narrower : s.spacing.Narrower t := ⟨by decide, by decide, by decide, by decide⟩
  have placed : ofRow s row = .ok (drawn s.spacing row.events).layout := rfl
  have placed' : ofRow { s with spacing := t } row = .ok (drawn t row.events).layout := rfl
  rcases ofRow_respaced s t row with ⟨l, l', hl, hl', same, leftward⟩ | ⟨fault, hf, -⟩
  · rw [placed] at hl
    rw [placed'] at hl'
    cases hl
    cases hl'
    exact ⟨narrower, _, _, placed, placed', same, leftward narrower, by decide +kernel, by decide +kernel,
      by decide +kernel, by decide +kernel⟩
  · rw [placed] at hf
    cases hf

end Layout

end Dotwork
