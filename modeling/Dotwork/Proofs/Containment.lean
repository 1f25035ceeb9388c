import Dotwork.Proofs.Membership
import Mathlib.Algebra.Order.BigOperators.Group.List
import Mathlib.Algebra.Order.Group.Nat

/-!
# Containment

As long as the columns of a row do not come up to the greatest word, a layout can be read off its columns: a boundary
spans the columns of just those dots and markers that are in its group. Each event has columns of its own, so that
the order of columns is that of the places, and the padding keeps a group off the one around it.
-/

namespace Dotwork

/-! ### Exact columns -/

namespace Event
variable {s : Spacing} {es : List Event} {m n p q x y : Nat}

/-- The columns that some events take up, without an upper limit. -/
def total (s : Spacing) (es : List Event) : Nat :=
  (es.map (width s)).sum

theorem extent_eq_total (fits : total s es ≤ Word.greatest) : extent s es = total s es :=
  Nat.min_eq_left fits

theorem total_take_le (s : Spacing) (es : List Event) (h : m ≤ n) : total s (es.take m) ≤ total s (es.take n) :=
  ((List.take_sublist_take_left h).map (width s)).sum_le_sum fun _ _ => Nat.zero_le _

theorem total_take_le_total (m : Nat) : total s (es.take m) ≤ total s es :=
  ((List.take_sublist m es).map (width s)).sum_le_sum fun _ _ => Nat.zero_le _

theorem extent_take (fits : total s es ≤ Word.greatest) (m : Nat) : extent s (es.take m) = total s (es.take m) :=
  extent_eq_total (Nat.le_trans (total_take_le_total m) fits)

theorem total_take_succ {e : Event} (h : es[p]? = some e) :
    total s (es.take (p + 1)) = total s (es.take p) + e.width s := by
  simp [total, List.take_add_one, h]

/-- The column is one of those that the event at the place takes up. -/
def Occupies (s : Spacing) (es : List Event) (p x : Nat) : Prop :=
  total s (es.take p) ≤ x ∧ x < total s (es.take (p + 1))

theorem Occupies.lt (hx : Occupies s es p x) (hy : Occupies s es q y) (h : p < q) : x < y :=
  Nat.lt_of_lt_of_le hx.2 (Nat.le_trans (total_take_le s es h) hy.1)

theorem Occupies.lt_total (hx : Occupies s es p x) : x < total s es :=
  Nat.lt_of_lt_of_le hx.2 (total_take_le_total (p + 1))

/-- A column is between those of two events if and only if its event is. -/
theorem Occupies.between_iff {first last : Nat} (hx : Occupies s es p x) (hfirst : p ≠ first) (hlast : p ≠ last) :
    total s (es.take first) ≤ x ∧ x < total s (es.take (last + 1)) ↔ first < p ∧ p < last := by
  constructor
  · rintro ⟨hstart, hstop⟩
    constructor
    · by_contra hp
      have hle := total_take_le s es (show p + 1 ≤ first by omega)
      have hlt := hx.2
      omega
    · by_contra hp
      have hle := total_take_le s es (show last + 1 ≤ p by omega)
      have hge := hx.1
      omega
  · rintro ⟨hstart, hstop⟩
    have hle := total_take_le s es (Nat.le_of_lt hstart)
    have hlt := total_take_le s es (show p + 1 ≤ last + 1 by omega)
    exact ⟨Nat.le_trans hle hx.1, Nat.lt_of_lt_of_le hx.2 hlt⟩

end Event

namespace Layout

section Place
variable {s : Spacing} {es : List Event} {p : Nat} (fits : Event.total s es ≤ Word.greatest)
include fits

theorem elementAt_occupies {c : Cluster} (hp : es[p]? = some (.dot c)) :
    Event.Occupies s es p (elementAt s (es.take p) c).position.column := by
  have hsucc := Event.total_take_succ (s := s) hp
  have hcolumn : (elementAt s (es.take p) c).position.column = Event.total s (es.take p) := Event.extent_take fits p
  rw [Event.Occupies, hcolumn, hsucc]
  exact ⟨Nat.le_refl _, Nat.lt_succ_self _⟩

theorem markerAt_occupies {source : Span} (hp : es[p]? = some (.plus source)) (hgap : 1 ≤ s.unionGap) :
    Event.Occupies s es p (markerAt s (es.take p) source).column := by
  have hsucc := Event.total_take_succ (s := s) hp
  have hbehind : es.take p ++ [.plus source] = es.take (p + 1) := by rw [List.take_add_one, hp]; rfl
  have hcolumn : (markerAt s (es.take p) source).column =
      Grid.Columns.middle ⟨Event.total s (es.take p), Event.total s (es.take (p + 1))⟩ := by
    rw [markerAt, hbehind, Event.extent_take fits, Event.extent_take fits]
  have hwidth : (Event.plus source).width s = s.unionGap := rfl
  rw [Event.Occupies, hcolumn, Grid.Columns.middle, Grid.Columns.width]
  dsimp only
  omega

/-- A boundary spans the columns of an event if and only if the event is in its group. -/
theorem Boundary.Reaches.contains_iff {b : Boundary} {first last x : Nat} (reaches : b.Reaches s es first last)
    {e : Event} (hp : es[p]? = some e) (he : e.bracket? = none) (hx : Event.Occupies s es p x) :
    b.columns.contains x = true ↔ b.id ∈ Event.path (es.take p) := by
  obtain ⟨h, hfirst⟩ := reaches.opening
  have hne : p ≠ first := ne_of_getElem?_ne hp hfirst fun heq => by
    subst heq
    cases he
  have hne' : p ≠ last := ne_of_getElem?_ne hp reaches.closing fun heq => by
    subst heq
    cases he
  rw [reaches.mem_path_event hp he, ← hx.between_iff hne hne', reaches.columns, Event.extent_take fits,
    Event.extent_take fits, Grid.Columns.contains, Bool.and_eq_true, decide_eq_true_iff, decide_eq_true_iff]

/-- The padding on either side keeps a group off the one around it. -/
theorem Boundary.Reaches.padded {a b : Boundary} {first last first' last' : Nat} (ha : a.Reaches s es first last)
    (hb : b.Reaches s es first' last') (hfirst : first < first') (hlast : last' < last) :
    a.columns.start + s.groupPadding ≤ b.columns.start ∧ b.columns.stop + s.groupPadding ≤ a.columns.stop := by
  obtain ⟨h, hopening⟩ := ha.opening
  have hstart := Event.total_take_succ (s := s) hopening
  have hstop := Event.total_take_succ (s := s) ha.closing
  have hle := Event.total_take_le s es (show first + 1 ≤ first' from hfirst)
  have hle' := Event.total_take_le s es (show last' + 1 ≤ last from hlast)
  simp only [ha.columns, hb.columns, Event.extent_take fits, hstop]
  simp only [Event.width] at hstart ⊢
  omega

end Place

/-! ### Columns and groups -/

/-- The markers of a layout have columns of their own, in the order of the text, and a boundary spans just those of
    the markers in its group. -/
structure Marked (l : Layout) : Prop where
  free : ∀ e ∈ l.elements, ∀ m ∈ l.unions, e.position.column ≠ m.column
  increasing : ∀ (i j : Nat) m n, i < j → l.unions[i]? = some m → l.unions[j]? = some n → m.column < n.column
  below : ∀ m ∈ l.unions, m.column < l.width
  contains : ∀ m ∈ l.unions, ∀ b ∈ l.groups, b.columns.contains m.column = true ↔
    m.group = some b.id ∨ ∃ inner, m.group = some inner ∧ l.Above b.id inner

/-- The elements of a layout have columns of their own, in drawing order, and a boundary spans just those of the
    elements in its group, off the groups around it by the padding and clear of all others. -/
structure Contained (s : Spacing) (l : Layout) : Prop where
  increasing : ∀ (i j : Nat) e f, i < j → l.elements[i]? = some e → l.elements[j]? = some f →
    e.position.column < f.position.column
  below : ∀ e ∈ l.elements, e.position.column < l.width
  contains : ∀ e ∈ l.elements, ∀ b ∈ l.groups, b.columns.contains e.position.column = true ↔ b.id ∈ e.path
  padded : ∀ a ∈ l.groups, ∀ b ∈ l.groups, l.Above a.id b.id →
    a.columns.start + s.groupPadding ≤ b.columns.start ∧ b.columns.stop + s.groupPadding ≤ a.columns.stop
  apart : ∀ a ∈ l.groups, ∀ b ∈ l.groups, a.id ≠ b.id → ¬l.Above a.id b.id → ¬l.Above b.id a.id →
    a.columns.stop ≤ b.columns.start ∨ b.columns.stop ≤ a.columns.start
  marked : 1 ≤ s.unionGap → l.Marked

section Drawn
variable {s : Spacing} {row : Row} (fits : Event.total s row.events ≤ Word.greatest)
include fits

theorem exists_occupied_of_element {i : Nat} {e : Element} (h : (drawn s row.events).elements[i]? = some e) :
    ∃ p c, row.events[p]? = some (.dot c) ∧ (row.events.take p).countP Event.isDot = i ∧
      e.path = Event.path (row.events.take p) ∧ Event.Occupies s row.events p e.position.column := by
  obtain ⟨p, c, hp, hi, rfl⟩ := exists_place_of_element h
  exact ⟨p, c, hp, hi, rfl, elementAt_occupies fits hp⟩

theorem exists_occupied_of_marker (hgap : 1 ≤ s.unionGap) {i : Nat} {m : Marker}
    (h : (drawn s row.events).unions[i]? = some m) :
    ∃ p source, row.events[p]? = some (.plus source) ∧ (row.events.take p).countP Event.isPlus = i ∧
      m.group = (Event.path (row.events.take p)).getLast? ∧ Event.Occupies s row.events p m.column := by
  obtain ⟨p, source, hp, hi, rfl⟩ := exists_place_of_marker h
  exact ⟨p, source, hp, hi, rfl, markerAt_occupies fits hp hgap⟩

theorem width_drawn : (drawn s row.events).layout.width = Event.total s row.events :=
  (drawn_position s row.events).trans (Event.extent_eq_total fits)

theorem marked_drawn (hgap : 1 ≤ s.unionGap) : (drawn s row.events).layout.Marked := by
  constructor
  case free =>
    intro e he m hm
    obtain ⟨i, hi⟩ := Array.mem_iff_getElem?.mp he
    obtain ⟨j, hj⟩ := Array.mem_iff_getElem?.mp hm
    obtain ⟨p, c, hp, -, -, hx⟩ := exists_occupied_of_element fits hi
    obtain ⟨q, source, hq, -, -, hy⟩ := exists_occupied_of_marker fits hgap hj
    have hne : p ≠ q := ne_of_getElem?_ne hp hq (by simp)
    rcases Nat.lt_or_gt_of_ne hne with hlt | hlt
    · exact Nat.ne_of_lt (hx.lt hy hlt)
    · exact Nat.ne_of_gt (hy.lt hx hlt)
  case increasing =>
    intro i j m n hij hm hn
    obtain ⟨p, source, -, rfl, -, hx⟩ := exists_occupied_of_marker fits hgap hm
    obtain ⟨q, source', -, rfl, -, hy⟩ := exists_occupied_of_marker fits hgap hn
    exact hx.lt hy (Event.lt_of_countP_take_lt hij)
  case below =>
    intro m hm
    obtain ⟨i, hi⟩ := Array.mem_iff_getElem?.mp hm
    obtain ⟨p, source, -, -, -, hx⟩ := exists_occupied_of_marker fits hgap hi
    rw [width_drawn fits]
    exact hx.lt_total
  case contains =>
    intro m hm b hb
    obtain ⟨i, hi⟩ := Array.mem_iff_getElem?.mp hm
    obtain ⟨p, source, hp, -, hgroup, hx⟩ := exists_occupied_of_marker fits hgap hi
    obtain ⟨-, first, last, reaches⟩ := exists_of_mem_groups hb
    rw [reaches.contains_iff fits hp rfl hx, hgroup]
    exact mem_path_iff_above

/-- A layout whose columns stay below the greatest word shows by them what is in which group. -/
theorem contained_drawn : Contained s (drawn s row.events).layout := by
  constructor
  case increasing =>
    intro i j e f hij he hf
    obtain ⟨p, c, -, rfl, -, hx⟩ := exists_occupied_of_element fits he
    obtain ⟨q, c', -, rfl, -, hy⟩ := exists_occupied_of_element fits hf
    exact hx.lt hy (Event.lt_of_countP_take_lt hij)
  case below =>
    intro e he
    obtain ⟨i, hi⟩ := Array.mem_iff_getElem?.mp he
    obtain ⟨p, c, -, -, -, hx⟩ := exists_occupied_of_element fits hi
    rw [width_drawn fits]
    exact hx.lt_total
  case contains =>
    intro e he b hb
    obtain ⟨i, hi⟩ := Array.mem_iff_getElem?.mp he
    obtain ⟨p, c, hp, -, hpath, hx⟩ := exists_occupied_of_element fits hi
    obtain ⟨-, first, last, reaches⟩ := exists_of_mem_groups hb
    rw [hpath]
    exact reaches.contains_iff fits hp rfl hx
  case padded =>
    intro a ha b hb habove
    obtain ⟨f, l, f', l', hra, hrb, hfirst, hlast⟩ := exists_within ha hb habove
    exact hra.padded fits hrb hfirst hlast
  case apart =>
    intro a ha b hb hne hab hba
    obtain ⟨f, l, f', l', hra, hrb, hlt⟩ := exists_apart ha hb hne hab hba
    simp only [hra.columns, hrb.columns, Event.extent_take fits]
    exact hlt.imp (Event.total_take_le _ _) (Event.total_take_le _ _)
  case marked => exact marked_drawn fits

end Drawn

/-- What is in which group can be told from the columns of every layout whose row takes up no more columns than the
    greatest word. -/
theorem contained_of_ofRow {s : Settings} {row : Row} {l : Layout}
    (fits : Event.total s.spacing row.events ≤ Word.greatest) (h : ofRow s row = .ok l) : Contained s.spacing l := by
  obtain rfl := eq_layout_of_ofRow h
  exact contained_drawn fits

/-- Groups side by side and in one another without any gap but that of a plus. -/
theorem contained_of_no_padding :
    let s : Settings := { spacing := { spaceGap := 0, unionGap := 1, groupPadding := 0, zeroWidth := 0 } }
    let o : Symbol := ⟨'★', by decide +kernel⟩
    let head : Head := ⟨none, none, default, default⟩
    let body : Row := .cluster ⟨1, o, default⟩ (some ⟨.plus, default⟩) (.group head .nil none .nil)
    let row : Row := .group head body none (.group head (.cluster ⟨-2, o, default⟩ none .nil) none .nil)
    Event.total s.spacing row.events ≤ Word.greatest ∧
      ∃ l, ofRow s row = .ok l ∧ Contained s.spacing l ∧ l.groups.size = 3 ∧ l.unions.size = 1 := by
  intro s o head body row
  have fits : Event.total s.spacing row.events ≤ Word.greatest := by decide +kernel
  have h : ofRow s row = .ok (drawn s.spacing row.events).layout := rfl
  exact ⟨fits, _, h, contained_of_ofRow fits h, by decide +kernel, by decide +kernel⟩

end Layout

end Dotwork
