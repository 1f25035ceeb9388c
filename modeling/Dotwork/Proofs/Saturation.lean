import Dotwork.Proofs.Containment
import Dotwork.Proofs.Guards

/-!
# Columns up to the greatest word

Columns that come up to the greatest word stay there, so that things which stand side by side may come to share one
column. Their order is never turned round: along the text no column gets less, and no group comes to lie outside of the
one around it. Nor does any step of placing run into what it cannot do.
-/

namespace Dotwork

namespace Event
variable {s : Spacing} {es : List Event} {m n p q x y : Nat}

theorem extent_take_le (s : Spacing) (es : List Event) (h : m ≤ n) : extent s (es.take m) ≤ extent s (es.take n) := by
  have hle := total_take_le s es h
  unfold total at hle
  unfold extent
  omega

theorem extent_take_le_extent (m : Nat) : extent s (es.take m) ≤ extent s es := by
  have hle : total s (es.take m) ≤ total s es := total_take_le_total m
  unfold total at hle
  unfold extent
  omega

/-- The column is not in front of the event at the place, and not behind it. -/
def Touches (s : Spacing) (es : List Event) (p x : Nat) : Prop :=
  extent s (es.take p) ≤ x ∧ x ≤ extent s (es.take (p + 1))

theorem Touches.le (hx : Touches s es p x) (hy : Touches s es q y) (h : p < q) : x ≤ y :=
  Nat.le_trans hx.2 (Nat.le_trans (extent_take_le s es h) hy.1)

theorem Touches.le_extent (hx : Touches s es p x) : x ≤ extent s es :=
  Nat.le_trans hx.2 (extent_take_le_extent (p + 1))

end Event

namespace Layout

section Place
variable {s : Spacing} {es : List Event} {p : Nat}

theorem elementAt_touches (c : Cluster) : Event.Touches s es p (elementAt s (es.take p) c).position.column :=
  ⟨Nat.le_refl _, Event.extent_take_le s es (Nat.le_succ p)⟩

theorem markerAt_touches {source : Span} (hp : es[p]? = some (.plus source)) :
    Event.Touches s es p (markerAt s (es.take p) source).column := by
  have hbehind : es.take p ++ [.plus source] = es.take (p + 1) := by rw [List.take_add_one, hp]; rfl
  have order := Event.extent_take_le s es (Nat.le_succ p)
  rw [markerAt, hbehind]
  constructor
  · exact Grid.Columns.start_le_middle ⟨Event.extent s (es.take p), Event.extent s (es.take (p + 1))⟩
  · exact Grid.Columns.middle_le_stop order

end Place

/-- The column of the dot or the plus at a place of some events. -/
def columnAt? (l : Layout) (es : List Event) (p : Nat) : Option Nat :=
  match es[p]? with
  | some (.dot _) => l.elements[(es.take p).countP Event.isDot]?.map (·.position.column)
  | some (.plus _) => l.unions[(es.take p).countP Event.isPlus]?.map (·.column)
  | some .zero | some .space | some (.opening _) | some .closing | none => none

/-- The columns of a layout follow the order of its events, and its groups lie in one another. -/
structure Ordered (es : List Event) (l : Layout) : Prop where
  shown : ∀ p, (l.columnAt? es p).isSome = true ↔ ∃ e, es[p]? = some e ∧ (e.isDot = true ∨ e.isPlus = true)
  text : ∀ p q x y, p < q → l.columnAt? es p = some x → l.columnAt? es q = some y → x ≤ y
  elements : ∀ (i j : Nat) e f, i < j → l.elements[i]? = some e → l.elements[j]? = some f →
    e.position.column ≤ f.position.column
  markers : ∀ (i j : Nat) m n, i < j → l.unions[i]? = some m → l.unions[j]? = some n → m.column ≤ n.column
  dotsBelow : ∀ e ∈ l.elements, e.position.column ≤ l.width
  markersBelow : ∀ m ∈ l.unions, m.column ≤ l.width
  groups : ∀ b ∈ l.groups, b.columns.start ≤ b.columns.stop ∧ b.columns.stop ≤ l.width
  parents : ∀ b ∈ l.groups, ∀ p, b.parent = some p →
    ∃ outer, l.group? p = some outer ∧ outer.columns.encloses b.columns = true

section Drawn
variable {s : Spacing} {row : Row}

theorem width_eq_extent : (drawn s row.events).layout.width = Event.extent s row.events :=
  drawn_position s row.events

theorem touches_of_element {i : Nat} {e : Element} (h : (drawn s row.events).elements[i]? = some e) :
    ∃ p, (row.events.take p).countP Event.isDot = i ∧ Event.Touches s row.events p e.position.column := by
  obtain ⟨p, c, -, hi, rfl⟩ := exists_place_of_element h
  exact ⟨p, hi, elementAt_touches c⟩

theorem touches_of_marker {i : Nat} {m : Marker} (h : (drawn s row.events).unions[i]? = some m) :
    ∃ p, (row.events.take p).countP Event.isPlus = i ∧ Event.Touches s row.events p m.column := by
  obtain ⟨p, source, hp, hi, rfl⟩ := exists_place_of_marker h
  exact ⟨p, hi, markerAt_touches hp⟩

/-- The column at a place is that of the dot or the plus there. -/
theorem columnAt?_drawn (s : Spacing) (es : List Event) (p : Nat) :
    (drawn s es).layout.columnAt? es p =
      match es[p]? with
      | some (.dot c) => some (elementAt s (es.take p) c).position.column
      | some (.plus source) => some (markerAt s (es.take p) source).column
      | some .zero | some .space | some (.opening _) | some .closing | none => none := by
  have split : ∀ {e}, es[p]? = some e → es = es.take p ++ e :: es.drop (p + 1) := fun h => by
    obtain ⟨hp, rfl⟩ := List.getElem?_eq_some_iff.mp h
    rw [← List.drop_eq_getElem_cons hp, List.take_append_drop]
  unfold columnAt?
  cases he : es[p]? with
  | none => rfl
  | some e =>
    cases e with
    | dot c => exact congrArg (Option.map (·.position.column)) (getElem?_drawn_elements s es (split he))
    | plus source => exact congrArg (Option.map (·.column)) (getElem?_drawn_unions s es (split he))
    | zero | space | opening | closing => rfl

theorem touches_of_columnAt? {es : List Event} {p x : Nat} (h : (drawn s es).layout.columnAt? es p = some x) :
    Event.Touches s es p x := by
  rw [columnAt?_drawn] at h
  split at h
  · cases h
    exact elementAt_touches _
  · next hp =>
    cases h
    exact markerAt_touches hp
  all_goals cases h

/-- A group lies in the columns of the one around it. -/
theorem Boundary.Reaches.encloses {es : List Event} {a b : Boundary} {first last first' last' : Nat}
    (ha : a.Reaches s es first last) (hb : b.Reaches s es first' last') (hfirst : first < first')
    (hlast : last' < last) : a.columns.encloses b.columns = true := by
  have start := Event.extent_take_le s es (Nat.le_of_lt hfirst)
  have stop := Event.extent_take_le s es (Nat.succ_le_succ (Nat.le_of_lt hlast))
  rw [ha.columns, hb.columns, Grid.Columns.encloses, Bool.and_eq_true, decide_eq_true_iff, decide_eq_true_iff]
  exact ⟨start, stop⟩

theorem ordered_drawn (s : Spacing) (row : Row) : Ordered row.events (drawn s row.events).layout := by
  constructor
  case shown =>
    intro p
    rw [columnAt?_drawn]
    cases row.events[p]? with
    | none => simp
    | some e => cases e <;> simp [Event.isDot, Event.isPlus]
  case text =>
    intro p q x y hpq hx hy
    exact (touches_of_columnAt? hx).le (touches_of_columnAt? hy) hpq
  case elements =>
    intro i j e f hij he hf
    obtain ⟨p, rfl, hx⟩ := touches_of_element he
    obtain ⟨q, rfl, hy⟩ := touches_of_element hf
    exact hx.le hy (Event.lt_of_countP_take_lt hij)
  case markers =>
    intro i j m n hij hm hn
    obtain ⟨p, rfl, hx⟩ := touches_of_marker hm
    obtain ⟨q, rfl, hy⟩ := touches_of_marker hn
    exact hx.le hy (Event.lt_of_countP_take_lt hij)
  case dotsBelow =>
    intro e he
    obtain ⟨i, hi⟩ := Array.mem_iff_getElem?.mp he
    obtain ⟨p, -, hx⟩ := touches_of_element hi
    rw [width_eq_extent]
    exact hx.le_extent
  case markersBelow =>
    intro m hm
    obtain ⟨i, hi⟩ := Array.mem_iff_getElem?.mp hm
    obtain ⟨p, -, hx⟩ := touches_of_marker hi
    rw [width_eq_extent]
    exact hx.le_extent
  case groups =>
    intro b hb
    obtain ⟨-, first, last, reaches⟩ := exists_of_mem_groups hb
    rw [reaches.columns, width_eq_extent]
    exact ⟨Event.extent_take_le s _ (Nat.le_succ_of_le (Nat.le_of_lt reaches.order)), Event.extent_take_le_extent _⟩
  case parents =>
    intro b hb p hp
    obtain ⟨-, first', last', inner⟩ := exists_of_mem_groups hb
    have hpath := inner.parent.symm.trans hp
    obtain ⟨front, hfront⟩ := List.getLast?_eq_some_iff.mp hpath
    obtain ⟨outer, first, last, hfound, hid, around, -⟩ := exists_group_of_path (s := s) hfront
    have hopen : outer.id ∈ Event.path (row.events.take first') := hid ▸ List.mem_of_getLast? hpath
    obtain ⟨hfirst, hlast⟩ := around.within inner hopen
    exact ⟨outer, hfound, around.encloses inner hfirst hlast⟩

end Drawn

/-- A layout that is placed with guards: the slot of each group is filled with the boundary that has its number, paths
    are as long as depths, elements are there for all ranges, and columns are in order. -/
structure Guarded.Upheld (row : Row) (l : Layout) (filled : Array Bool) : Prop where
  filled : filled = Array.replicate l.groups.size true
  number : ∀ (k : Nat) b, l.groups[k]? = some b → b.id = ⟨k⟩
  path : ∀ e ∈ l.elements, e.path.length = e.position.depth
  range : ∀ b ∈ l.groups, b.elements.start ≤ b.elements.stop ∧ b.elements.stop ≤ l.elements.size
  ordered : Ordered row.events l

/-- No guard ever stops: with guards a row comes to its layout, or else to its refusal. -/
theorem Guarded.ofRow_upheld (s : Settings) (row : Row) :
    (∃ l filled, Guarded.ofRow s row = .ok (l, filled) ∧ Layout.ofRow s row = .ok l ∧ Upheld row l filled) ∨
      ∃ fault, Guarded.ofRow s row = .error (.refused fault) ∧ Layout.ofRow s row = .error fault := by
  rw [Guarded.ofRow_eq]
  cases h : Layout.ofRow s row with
  | error fault => exact Or.inr ⟨fault, rfl, rfl⟩
  | ok l =>
    have coherent := coherent_of_ofRow h
    obtain rfl := eq_layout_of_ofRow h
    refine Or.inl ⟨_, _, rfl, rfl, ?_⟩
    constructor
    case filled => rfl
    case number => exact fun k b hb => (coherent.number k b hb).1
    case path => exact fun e he => (coherent.depth e he).symm
    case range => exact coherent.range
    case ordered => exact ordered_drawn s.spacing row

/-- All that stands behind the first gap shares the last column, and the groups there are of no width. -/
theorem Guarded.ofRow_upheld_of_widest_gap :
    let h : Symbol := ⟨'h', by decide +kernel⟩
    let head : Head := ⟨none, none, default, default⟩
    let dots (join : Option (Located Join)) (rest : Row) : Row := .cluster ⟨-2, h, default⟩ join rest
    let row : Row := dots (some ⟨.space, default⟩)
      (.group head (dots (some ⟨.plus, default⟩) (.group head .nil none .nil)) none .nil)
    let s : Settings := { spacing := { spaceGap := Word.greatest } }
    ∃ l filled, Guarded.ofRow s row = .ok (l, filled) ∧ Upheld row l filled ∧ filled = #[true, true] ∧
      l.elements.toList.map (·.position.column) = [0, 1, Word.greatest, Word.greatest] ∧
      l.unions.toList.map (·.column) = [Word.greatest] ∧
      l.groups.toList.map (·.columns) = [⟨Word.greatest, Word.greatest⟩, ⟨Word.greatest, Word.greatest⟩] := by
  intro h head dots row s
  have placed : Layout.ofRow s row = .ok (drawn s.spacing row.events).layout := rfl
  rcases ofRow_upheld s row with ⟨l, filled, hl, hrow, upheld⟩ | ⟨fault, -, hf⟩
  · rw [placed] at hrow
    cases hrow
    exact ⟨_, filled, hl, upheld, upheld.filled.trans (by decide +kernel), by decide +kernel, by decide +kernel,
      by decide +kernel⟩
  · rw [placed] at hf
    cases hf

end Layout

end Dotwork
