import Dotwork.Proofs.Canvas

/-!
# Places

The events of a row stand at places that are counted from zero. An element stands where its dot does and a marker
where its plus does; a boundary reaches from the place where its group is opened to the place where it is closed,
and the group is open strictly between the two. How members of a layout lie to each other is then a matter of the
order of places.
-/

namespace Dotwork

namespace Event

def isOpening : Event → Bool
  | .opening _ => true
  | .dot _ | .zero | .space | .plus _ | .closing => false

variable {es fs : List Event} {m n : Nat}

theorem openings_brackets (es : List Event) : Bracket.openings (brackets es) = es.countP isOpening := by
  rw [Bracket.openings, brackets, List.count, List.countP_filterMap]
  congr
  funext e
  cases e <;> rfl

theorem path_append_of_level (es : List Event) {depth : Nat} (h : Bracket.level 0 (brackets fs) = some depth) :
    ∃ inner, path (es ++ fs) = path es ++ inner := by
  obtain ⟨inner, hopened, -⟩ := Bracket.opened_append (brackets es) h
  exact ⟨inner.map Layout.GroupId.mk, by rw [path, brackets_append, hopened, List.map_append, path]⟩

/-- Among balanced events, the first ones close no group that is opened in front of them. -/
theorem exists_level_take (balanced : Bracket.Balanced (brackets es)) (m : Nat) :
    ∃ depth, Bracket.level 0 (brackets (es.take m)) = some depth := by
  rw [← List.take_append_drop m es, Bracket.Balanced, brackets_append, Bracket.level_append] at balanced
  obtain ⟨depth, hdepth, -⟩ := Option.bind_eq_some_iff.mp balanced
  exact ⟨depth, hdepth⟩

theorem mem_path_iff {id : Layout.GroupId} : id ∈ path es ↔ id.index ∈ Bracket.opened (brackets es) := by
  obtain ⟨n⟩ := id
  simp [path]

theorem mem_path_of_append {id : Layout.GroupId} (h : id ∈ path (es ++ fs))
    (hid : id.index < Bracket.openings (brackets es)) : id ∈ path es := by
  rw [mem_path_iff, brackets_append] at h
  exact mem_path_iff.mpr (Bracket.mem_opened_of_append h hid)

theorem openings_take_le (es : List Event) (h : m ≤ n) :
    Bracket.openings (brackets (es.take m)) ≤ Bracket.openings (brackets (es.take n)) :=
  ((List.take_sublist_take_left h).filterMap bracket?).count_le _

theorem countP_take_le (es : List Event) (p : Event → Bool) (h : m ≤ n) : (es.take m).countP p ≤ (es.take n).countP p :=
  (List.take_sublist_take_left h).countP_le

theorem lt_of_countP_take_lt {p : Event → Bool} (h : (es.take m).countP p < (es.take n).countP p) : m < n := by
  by_contra hle
  exact Nat.not_lt_of_le (countP_take_le es p (Nat.le_of_not_lt hle)) h

end Event

namespace Layout

/-! ### Where a group is open -/

section Group
variable {before inside : List Event} {h : Head}

theorem path_behind_closing (balanced : Bracket.Balanced (Event.brackets inside)) :
    Event.path (before ++ .opening h :: inside ++ [.closing]) = Event.path before := by
  rw [← drawn_path default]
  exact (drawn_closing default before h balanced).1

theorem mem_path_inside {depth : Nat} (level : Bracket.level 0 (Event.brackets inside) = some depth) :
    ⟨Bracket.openings (Event.brackets before)⟩ ∈ Event.path (before ++ [.opening h] ++ inside) := by
  obtain ⟨inner, hpath⟩ := Event.path_append_of_level (before ++ [.opening h]) level
  rw [hpath, path_concat]
  simp [Event.bracket?]

/-- Behind its closing those groups are open that were so in front of a group, and some that came later. -/
theorem notMem_path_behind (after : List Event) (balanced : Bracket.Balanced (Event.brackets inside)) :
    ⟨Bracket.openings (Event.brackets before)⟩ ∉
      Event.path (before ++ .opening h :: inside ++ [.closing] ++ after) := by
  intro hmem
  have hopen := Event.mem_path_of_append hmem (by simp [Bracket.openings])
  rw [path_behind_closing balanced] at hopen
  exact Nat.lt_irrefl _ (path_lt_openings hopen)

/-- A group is open between the event that opens it and the one that closes it, and nowhere else. -/
theorem mem_path_take_iff (after : List Event) (balanced : Bracket.Balanced (Event.brackets inside)) (m : Nat) :
    ⟨Bracket.openings (Event.brackets before)⟩ ∈
        Event.path ((before ++ .opening h :: (inside ++ .closing :: after)).take m) ↔
      before.length < m ∧ m ≤ before.length + 1 + inside.length := by
  rcases Nat.lt_or_ge before.length m with hfirst | hfirst
  · rcases Nat.lt_or_ge (before.length + 1 + inside.length) m with hlast | hlast
    · refine iff_of_false ?_ (by omega)
      rw [show before ++ .opening h :: (inside ++ .closing :: after) =
        before ++ .opening h :: inside ++ [.closing] ++ after by simp, List.take_append,
        List.take_of_length_le (by simp; omega)]
      exact notMem_path_behind _ balanced
    · refine iff_of_true ?_ ⟨hfirst, hlast⟩
      obtain ⟨depth, level⟩ := Event.exists_level_take balanced (m - (before ++ [Event.opening h]).length)
      rw [show before ++ .opening h :: (inside ++ .closing :: after) =
        before ++ [.opening h] ++ (inside ++ .closing :: after) by simp, List.take_append,
        List.take_of_length_le (by simp; omega), List.take_append_of_le_length (by simp; omega)]
      exact mem_path_inside level
  · refine iff_of_false (fun hmem => ?_) (by omega)
    have hlt := path_lt_openings hmem
    rw [List.take_append_of_le_length hfirst] at hlt
    have hle : Bracket.openings (Event.brackets (before.take m)) ≤ Bracket.openings (Event.brackets before) := by
      simpa using Event.openings_take_le before hfirst
    simp only at hlt
    omega

end Group

/-! ### Members and their places -/

/-- The group of a boundary is opened by the event at the place `first` and closed by the event at `last`. -/
structure Boundary.Reaches (s : Spacing) (es : List Event) (b : Boundary) (first last : Nat) : Prop where
  order : first < last
  opening : ∃ h, es[first]? = some (.opening h)
  closing : es[last]? = some .closing
  id : b.id = ⟨Bracket.openings (Event.brackets (es.take first))⟩
  parent : b.parent = (Event.path (es.take first)).getLast?
  depth : b.depth = (Event.path (es.take first)).length + 1
  columns : b.columns = ⟨Event.extent s (es.take first), Event.extent s (es.take (last + 1))⟩
  elements : b.elements = ⟨(es.take first).countP Event.isDot, (es.take last).countP Event.isDot⟩
  mem_path : ∀ m, b.id ∈ Event.path (es.take m) ↔ first < m ∧ m ≤ last
  path_behind : Event.path (es.take (last + 1)) = Event.path (es.take first)

theorem boundaryAt_reaches (s : Spacing) (before : List Event) (h : Head) {inside : List Event}
    (after : List Event) (balanced : Bracket.Balanced (Event.brackets inside)) :
    (boundaryAt s before h inside).Reaches s (before ++ .opening h :: (inside ++ .closing :: after)) before.length
      (before.length + 1 + inside.length) := by
  have hlast : (before ++ .opening h :: (inside ++ .closing :: after)).take (before.length + 1 + inside.length) =
      before ++ .opening h :: inside := by
    rw [show before ++ .opening h :: (inside ++ .closing :: after) =
      before ++ .opening h :: inside ++ .closing :: after by simp]
    exact List.take_left' (by simp; omega)
  have hbehind : (before ++ .opening h :: (inside ++ .closing :: after)).take (before.length + 1 + inside.length + 1) =
      before ++ .opening h :: inside ++ [.closing] := by
    rw [show before ++ .opening h :: (inside ++ .closing :: after) =
      before ++ .opening h :: inside ++ [.closing] ++ after by simp]
    exact List.take_left' (by simp; omega)
  constructor
  case order => omega
  case opening => exact ⟨h, by simp⟩
  case closing =>
    rw [List.getElem?_append_right (by omega), show before.length + 1 + inside.length - before.length =
      inside.length + 1 by omega, List.getElem?_cons_succ]
    simp
  case mem_path => exact mem_path_take_iff after balanced
  case path_behind => rw [hbehind, List.take_left, path_behind_closing balanced]
  all_goals simp only [boundaryAt, List.take_left, hlast, hbehind]

section Drawn
variable {s : Spacing} {es : List Event} {row : Row} {i : Nat}

theorem exists_place_of_element {e : Element} (h : (drawn s es).elements[i]? = some e) :
    ∃ p c, es[p]? = some (.dot c) ∧ (es.take p).countP Event.isDot = i ∧ e = elementAt s (es.take p) c := by
  have hi : i < es.countP Event.isDot := drawn_elements_size s es ▸ (Array.getElem?_eq_some_iff.mp h).1
  obtain ⟨before, x, after, hsplit, hx, rfl⟩ := exists_split_of_lt_countP hi
  cases x with
  | dot c =>
    rw [getElem?_drawn_elements s es hsplit] at h
    subst hsplit
    exact ⟨before.length, c, by simp, by rw [List.take_left], by rw [List.take_left, Option.some.inj h]⟩
  | zero | space | plus | opening | closing => cases hx

theorem exists_place_of_marker {m : Marker} (h : (drawn s es).unions[i]? = some m) :
    ∃ p source, es[p]? = some (.plus source) ∧ (es.take p).countP Event.isPlus = i ∧
      m = markerAt s (es.take p) source := by
  have hi : i < es.countP Event.isPlus := drawn_unions_size s es ▸ (Array.getElem?_eq_some_iff.mp h).1
  obtain ⟨before, x, after, hsplit, hx, rfl⟩ := exists_split_of_lt_countP hi
  cases x with
  | plus source =>
    rw [getElem?_drawn_unions s es hsplit] at h
    subst hsplit
    exact ⟨before.length, source, by simp, by rw [List.take_left], by rw [List.take_left, Option.some.inj h]⟩
  | dot | zero | space | opening | closing => cases hx

theorem exists_reaches_of_opening {before rest : List Event} {h : Head}
    (hsplit : row.events = before ++ .opening h :: rest) :
    ∃ b last, (drawn s row.events).groups[Bracket.openings (Event.brackets before)]? = some b ∧
      b.Reaches s row.events before.length last := by
  obtain ⟨inside, after, rfl, balanced⟩ := Row.exists_closing hsplit
  rw [hsplit]
  exact ⟨_, _, drawn_group s before h after balanced, boundaryAt_reaches s before h after balanced⟩

theorem exists_reaches {b : Boundary} (h : (drawn s row.events).groups[i]? = some b) :
    b.id = ⟨i⟩ ∧ ∃ first last, b.Reaches s row.events first last := by
  have hi : i < row.events.countP Event.isOpening := by
    rw [← Event.openings_brackets, ← drawn_groups_size s]
    exact (Array.getElem?_eq_some_iff.mp h).1
  obtain ⟨before, x, after, hsplit, hx, hcount⟩ := exists_split_of_lt_countP hi
  cases x with
  | opening head =>
    obtain ⟨b', last, hb, reaches⟩ := exists_reaches_of_opening (s := s) hsplit
    rw [Event.openings_brackets, hcount, h] at hb
    cases hb
    refine ⟨?_, _, _, reaches⟩
    rw [reaches.id, hsplit, List.take_left, Event.openings_brackets, hcount]
  | dot | zero | space | plus | closing => cases hx

/-- The groups in front of one on a path are those around the place where it is opened. -/
theorem exists_reaches_of_path {m : Nat} {outer inner : List GroupId} {id : GroupId}
    (h : Event.path (row.events.take m) = outer ++ id :: inner) :
    ∃ b first last, (drawn s row.events).groups[id.index]? = some b ∧ b.id = id ∧
      b.Reaches s row.events first last ∧ Event.path (row.events.take first) = outer := by
  obtain ⟨outer', rest, hopened, rfl, hrest⟩ := List.map_eq_append_iff.mp h
  obtain ⟨n, inner', rfl, rfl, rfl⟩ := List.map_eq_cons_iff.mp hrest
  obtain ⟨before, x, after, hsplit, hx, hn, houter⟩ := Bracket.exists_opening hopened
  cases x with
  | opening head =>
    have hevents : row.events = before ++ .opening head :: (after ++ row.events.drop m) := by
      rw [← List.cons_append, ← List.append_assoc, ← hsplit, List.take_append_drop]
    obtain ⟨b, last, hb, reaches⟩ := exists_reaches_of_opening (s := s) hevents
    have hbefore : row.events.take before.length = before := by rw [hevents, List.take_left]
    rw [Event.brackets, hn] at hb
    refine ⟨b, before.length, last, hb, ?_, reaches, ?_⟩
    · rw [reaches.id, hbefore, Event.brackets, hn]
    · rw [hbefore, Event.path, Event.brackets, houter]
  | dot | zero | space | plus | closing => cases hx

end Drawn

end Layout

end Dotwork
