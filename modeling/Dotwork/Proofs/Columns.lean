import Dotwork.Proofs.Canvas

/-!
# Columns

Where things stand in a layout is a sum over the events of its row: a dot, a group or a marker stands behind the
widths of all events in front of it. The sum is cut off at the greatest word once and not at every step.
-/

namespace Dotwork

namespace Layout

/-- A layout has an element for each dot, a group for each opening and a marker for each plus of some events, each
    in its order, and their columns are what the events in front of them and inside them take up. -/
structure Columned (s : Spacing) (es : List Event) (l : Layout) : Prop where
  dots : l.elements.size = es.countP Event.isDot
  dot : ∀ before c after, es = before ++ .dot c :: after →
    l.elements[before.countP Event.isDot]?.map (·.position.column) = some (Event.extent s before)
  groups : l.groups.size = Bracket.openings (Event.brackets es)
  group : ∀ before h rest, es = before ++ .opening h :: rest →
    ∃ inside after, rest = inside ++ .closing :: after ∧ Bracket.Balanced (Event.brackets inside) ∧
      ∃ b, l.groups[Bracket.openings (Event.brackets before)]? = some b ∧
        b.id = ⟨Bracket.openings (Event.brackets before)⟩ ∧
        b.columns = ⟨Event.extent s before, Event.extent s (before ++ .opening h :: inside ++ [.closing])⟩
  pluses : l.unions.size = es.countP Event.isPlus
  plus : ∀ before source after, es = before ++ .plus source :: after →
    ∃ a b, a = Event.extent s before ∧ b = Event.extent s (before ++ [.plus source]) ∧
      l.unions[before.countP Event.isPlus]?.map (·.column) = some (a + (b - a) / 2)
  width : l.width = Event.extent s es

/-- The columns of every layout are sums of the widths of events. -/
theorem columned_of_ofRow {s : Settings} {row : Row} {l : Layout} (h : ofRow s row = .ok l) :
    Columned s.spacing row.events l := by
  obtain rfl := eq_layout_of_ofRow h
  constructor
  case dots => exact drawn_elements_size s.spacing row.events
  case dot =>
    intro before c after hsplit
    exact congrArg (Option.map (·.position.column)) (getElem?_drawn_elements s.spacing _ hsplit)
  case groups => exact drawn_groups_size s.spacing row.events
  case group =>
    intro before h rest hsplit
    obtain ⟨inside, after, rfl, balanced⟩ := Row.exists_closing hsplit
    have hgroup := drawn_group s.spacing before h after balanced
    rw [← hsplit] at hgroup
    exact ⟨inside, after, rfl, balanced, _, hgroup, rfl, rfl⟩
  case pluses => exact drawn_unions_size s.spacing row.events
  case plus =>
    intro before source after hsplit
    exact ⟨_, _, rfl, rfl, congrArg (Option.map (·.column)) (getElem?_drawn_unions s.spacing _ hsplit)⟩
  case width => exact drawn_position s.spacing row.events

/-- A padding that takes up all columns. -/
theorem columned_of_wide_padding :
    let s : Settings := { spacing := { groupPadding := Word.greatest } }
    let o : Symbol := ⟨'o', by decide +kernel⟩
    let row : Row := .group ⟨none, none, default, default⟩ (.cluster ⟨2, o, default⟩ none .nil) none .nil
    ∃ l, ofRow s row = .ok l ∧ Columned s.spacing row.events l ∧ l.width = Word.greatest := by
  intro s o row
  refine ⟨_, rfl, columned_of_ofRow rfl, ?_⟩
  decide +kernel

end Layout

end Dotwork
