import Dotwork.Proofs.Places
import Mathlib.Logic.Relation

/-!
# Membership

Which dots a group holds is said twice in a layout: by the range of elements of its boundary, and by the paths of the
elements. The two agree, and the groups on a path are the last of them and all groups around it.
-/

namespace Dotwork

namespace Layout

/-- The second group stands directly in the first. -/
def IsParent (l : Layout) (p c : GroupId) : Prop :=
  ∃ b, l.group? c = some b ∧ b.parent = some p

/-- The second group stands in the first, at whatever depth. -/
def Above (l : Layout) : GroupId → GroupId → Prop :=
  Relation.TransGen l.IsParent

/-- Each group of a path stands directly in the one in front of it, and the first in none. -/
def IsLineage (l : Layout) (path : List GroupId) : Prop :=
  ∀ outer id inner, path = outer ++ id :: inner → ∃ b, l.group? id = some b ∧ b.parent = outer.getLast?

/-- Groups are numbered in their order, a path names all groups around an element and no others, and the ranges of
    two groups lie one in the other where the groups do, and apart otherwise. -/
structure Coherent (l : Layout) : Prop where
  number : ∀ (k : Nat) b, l.groups[k]? = some b → b.id = ⟨k⟩ ∧ l.group? ⟨k⟩ = some b
  range : ∀ b ∈ l.groups, b.elements.start ≤ b.elements.stop ∧ b.elements.stop ≤ l.elements.size
  elementsIn : ∀ b ∈ l.groups, (l.elementsIn b.id).length = b.elements.stop - b.elements.start
  member : ∀ b ∈ l.groups, ∀ (i : Nat) e, l.elements[i]? = some e →
    (b.elements.start ≤ i ∧ i < b.elements.stop ↔ b.id ∈ e.path)
  lineage : ∀ e ∈ l.elements, l.IsLineage e.path
  depth : ∀ e ∈ l.elements, e.position.depth = e.path.length
  child : ∀ b ∈ l.groups, ∀ p, b.parent = some p →
    ∃ outer, l.group? p = some outer ∧ b.depth = outer.depth + 1 ∧ p.index < b.id.index
  root : ∀ b ∈ l.groups, b.parent = none → b.depth = 1
  within : ∀ a ∈ l.groups, ∀ b ∈ l.groups, l.Above a.id b.id →
    a.elements.start ≤ b.elements.start ∧ b.elements.stop ≤ a.elements.stop
  apart : ∀ a ∈ l.groups, ∀ b ∈ l.groups, a.id ≠ b.id → ¬l.Above a.id b.id → ¬l.Above b.id a.id →
    a.elements.stop ≤ b.elements.start ∨ b.elements.stop ≤ a.elements.start

/-! ### The order of places -/

section Order
variable {s : Spacing} {es : List Event} {a b : Boundary} {first last first' last' : Nat}

/-- A group that is open where another one is opened is closed behind it. -/
theorem Boundary.Reaches.within (ha : a.Reaches s es first last) (hb : b.Reaches s es first' last')
    (h : a.id ∈ Event.path (es.take first')) : first < first' ∧ last' < last := by
  refine ⟨((ha.mem_path first').mp h).1, ?_⟩
  rw [← hb.path_behind] at h
  exact ((ha.mem_path (last' + 1)).mp h).2

/-- Of two groups neither of which is open where the other one is opened, one is closed before the other one is
    opened. -/
theorem Boundary.Reaches.apart (ha : a.Reaches s es first last) (hb : b.Reaches s es first' last')
    (hne : a.id ≠ b.id) (h : a.id ∉ Event.path (es.take first')) (h' : b.id ∉ Event.path (es.take first)) :
    last < first' ∨ last' < first := by
  rw [ha.mem_path first'] at h
  rw [hb.mem_path first] at h'
  have hfirst : first ≠ first' := fun heq => hne (by rw [ha.id, hb.id, heq])
  omega

theorem ne_of_getElem?_ne {p q : Nat} {e f : Event} (hp : es[p]? = some e) (hq : es[q]? = some f) (hne : e ≠ f) :
    p ≠ q := by
  rintro rfl
  exact hne (Option.some.inj (hp.symm.trans hq))

/-- A group is open at an event other than its own two if and only if the event is between them. -/
theorem Boundary.Reaches.mem_path_event (ha : a.Reaches s es first last) {p : Nat} {e : Event} (hp : es[p]? = some e)
    (he : e.bracket? = none) : a.id ∈ Event.path (es.take p) ↔ first < p ∧ p < last := by
  have hlast : p ≠ last := ne_of_getElem?_ne hp ha.closing fun h => by
    subst h
    cases he
  rw [ha.mem_path p]
  omega

end Order

/-! ### The groups of a layout -/

theorem group?_of_getElem? {l : Layout} (number : ∀ (k : Nat) b, l.groups[k]? = some b → b.id = ⟨k⟩) {k : Nat}
    {b : Boundary} (h : l.groups[k]? = some b) : l.group? ⟨k⟩ = some b := by
  obtain ⟨hk, rfl⟩ := Array.getElem?_eq_some_iff.mp h
  unfold group?
  rw [Array.find?_eq_some_iff_getElem]
  refine ⟨by simp [number k _ h], k, hk, rfl, fun j hj => ?_⟩
  have hid := number j _ (Array.getElem?_eq_getElem (hj.trans hk))
  simp [hid]
  omega

section Drawn
variable {s : Spacing} {row : Row} {a b : Boundary} {id : GroupId}

theorem group?_drawn {k : Nat} (h : (drawn s row.events).groups[k]? = some b) :
    (drawn s row.events).layout.group? ⟨k⟩ = some b :=
  group?_of_getElem? (fun _ _ h => (exists_reaches h).1) h

/-- The groups on the path at a place are those around the last of them, and that one. -/
theorem exists_group_of_path {m : Nat} {outer inner : List GroupId}
    (h : Event.path (row.events.take m) = outer ++ id :: inner) :
    ∃ b first last, (drawn s row.events).layout.group? id = some b ∧ b.id = id ∧
      b.Reaches s row.events first last ∧ Event.path (row.events.take first) = outer := by
  obtain ⟨b, first, last, hb, hid, reaches, houter⟩ := exists_reaches_of_path (s := s) h
  exact ⟨b, first, last, group?_drawn hb, hid, reaches, houter⟩

/-- What is open where a group is opened are the groups above it. -/
theorem above_iff {first last : Nat} (hb : (drawn s row.events).layout.group? b.id = some b)
    (reaches : b.Reaches s row.events first last) :
    (drawn s row.events).layout.Above id b.id ↔ id ∈ Event.path (row.events.take first) := by
  have parent : ∀ {c : Boundary} {p : GroupId} {f l : Nat}, (drawn s row.events).layout.group? c.id = some c →
      c.Reaches s row.events f l → (drawn s row.events).layout.IsParent p c.id →
      (Event.path (row.events.take f)).getLast? = some p := by
    rintro c p f l hc reaches ⟨c', hc', hp⟩
    rw [hc] at hc'
    cases hc'
    rw [← reaches.parent, hp]
  constructor
  · intro h
    generalize hc : b.id = c at h
    induction h generalizing b first last with
    | single edge =>
      subst hc
      exact List.mem_of_getLast? (parent hb reaches edge)
    | tail _ edge ih =>
      subst hc
      obtain ⟨outer, houter⟩ := List.getLast?_eq_some_iff.mp (parent hb reaches edge)
      obtain ⟨c, f, l, hc, rfl, hreaches, hpath⟩ := exists_group_of_path (s := s) houter
      rw [houter]
      exact List.mem_append_left _ (hpath ▸ ih hc hreaches rfl)
  · -- By the number of groups that are open: the last of them is the parent.
    generalize hpath : Event.path (row.events.take first) = path
    intro h
    induction path using List.reverseRecOn generalizing b first last with
    | nil => cases h
    | append_singleton outer p ih =>
      obtain ⟨c, f, l, hc, rfl, hreaches, houter⟩ := exists_group_of_path (s := s) hpath
      have edge : (drawn s row.events).layout.IsParent c.id b.id :=
        ⟨b, hb, by rw [reaches.parent, hpath, List.getLast?_concat]⟩
      rcases List.mem_append.mp h with h | h
      · exact (ih hc hreaches houter h).tail edge
      · rw [List.mem_singleton.mp h]
        exact .single edge

/-- The groups that are open at a place are the innermost of them and those above it. -/
theorem mem_path_iff_above {m : Nat} :
    id ∈ Event.path (row.events.take m) ↔ (Event.path (row.events.take m)).getLast? = some id ∨
      ∃ inner, (Event.path (row.events.take m)).getLast? = some inner ∧
        (drawn s row.events).layout.Above id inner := by
  rcases List.eq_nil_or_concat (Event.path (row.events.take m)) with hpath | ⟨outer, inner, hpath⟩
  · simp [hpath]
  · rw [List.concat_eq_append] at hpath
    obtain ⟨b, first, last, hb, rfl, reaches, houter⟩ := exists_group_of_path (s := s) hpath
    rw [hpath, List.getLast?_concat, List.mem_append, List.mem_singleton, ← houter, ← above_iff hb reaches]
    simp only [Option.some.injEq, exists_eq_left']
    rw [or_comm, eq_comm]

theorem exists_of_mem_groups (h : b ∈ (drawn s row.events).groups) :
    (drawn s row.events).layout.group? b.id = some b ∧ ∃ first last, b.Reaches s row.events first last := by
  obtain ⟨i, hi⟩ := Array.mem_iff_getElem?.mp h
  obtain ⟨hid, reaches⟩ := exists_reaches hi
  exact ⟨hid ▸ group?_drawn hi, reaches⟩

theorem exists_place_of_mem_elements {e : Element} (h : e ∈ (drawn s row.events).elements) :
    ∃ p c, row.events[p]? = some (.dot c) ∧ e = elementAt s (row.events.take p) c := by
  obtain ⟨i, hi⟩ := Array.mem_iff_getElem?.mp h
  obtain ⟨p, c, hp, -, rfl⟩ := exists_place_of_element hi
  exact ⟨p, c, hp, rfl⟩

theorem exists_within (ha : a ∈ (drawn s row.events).groups) (hb : b ∈ (drawn s row.events).groups)
    (h : (drawn s row.events).layout.Above a.id b.id) :
    ∃ first last first' last', a.Reaches s row.events first last ∧ b.Reaches s row.events first' last' ∧
      first < first' ∧ last' < last := by
  obtain ⟨-, first, last, hra⟩ := exists_of_mem_groups ha
  obtain ⟨hfound, first', last', hrb⟩ := exists_of_mem_groups hb
  exact ⟨first, last, first', last', hra, hrb, hra.within hrb ((above_iff hfound hrb).mp h)⟩

theorem exists_apart (ha : a ∈ (drawn s row.events).groups) (hb : b ∈ (drawn s row.events).groups)
    (hne : a.id ≠ b.id) (hab : ¬(drawn s row.events).layout.Above a.id b.id)
    (hba : ¬(drawn s row.events).layout.Above b.id a.id) :
    ∃ first last first' last', a.Reaches s row.events first last ∧ b.Reaches s row.events first' last' ∧
      (last < first' ∨ last' < first) := by
  obtain ⟨hfa, first, last, hra⟩ := exists_of_mem_groups ha
  obtain ⟨hfb, first', last', hrb⟩ := exists_of_mem_groups hb
  rw [above_iff hfb hrb] at hab
  rw [above_iff hfa hra] at hba
  exact ⟨first, last, first', last', hra, hrb, hra.apart hrb hne hab hba⟩

theorem exists_parent {first last : Nat} {p : GroupId} (reaches : b.Reaches s row.events first last)
    (hp : b.parent = some p) :
    ∃ outer, (drawn s row.events).layout.group? p = some outer ∧ b.depth = outer.depth + 1 ∧
      p.index < b.id.index := by
  rw [reaches.parent] at hp
  obtain ⟨front, hpath⟩ := List.getLast?_eq_some_iff.mp hp
  obtain ⟨c, f, l, hc, -, hreaches, hfront⟩ := exists_group_of_path (s := s) hpath
  refine ⟨c, hc, ?_, ?_⟩
  · rw [reaches.depth, hreaches.depth, hpath, hfront, List.length_append, List.length_singleton]
  · rw [reaches.id]
    exact path_lt_openings (List.mem_of_getLast? hp)

end Drawn

/-! ### Coherence -/

section Elements
variable {s : Spacing} {es : List Event} {b : Boundary} {first last : Nat}

theorem countP_take_succ {p : Nat} {c : Cluster} (h : es[p]? = some (.dot c)) :
    (es.take (p + 1)).countP Event.isDot = (es.take p).countP Event.isDot + 1 := by
  rw [List.take_add_one, h, List.countP_append]
  rfl

theorem Boundary.Reaches.range (reaches : b.Reaches s es first last) :
    b.elements.start ≤ b.elements.stop ∧ b.elements.stop ≤ (drawn s es).elements.size := by
  rw [reaches.elements, drawn_elements_size]
  exact ⟨Event.countP_take_le _ _ (Nat.le_of_lt reaches.order), (List.take_sublist last es).countP_le⟩

/-- The range of a group holds the numbers of the dots between its two places. -/
theorem Boundary.Reaches.mem_range (reaches : b.Reaches s es first last) {p : Nat} {c : Cluster}
    (hp : es[p]? = some (.dot c)) :
    b.elements.start ≤ (es.take p).countP Event.isDot ∧ (es.take p).countP Event.isDot < b.elements.stop ↔
      first < p ∧ p < last := by
  have hsucc := countP_take_succ hp
  obtain ⟨h, hfirst⟩ := reaches.opening
  have hne : p ≠ first := ne_of_getElem?_ne hp hfirst (by simp)
  simp only [reaches.elements]
  constructor
  · rintro ⟨hstart, hstop⟩
    constructor
    · -- A dot in front of the group is one of those that its range leaves out.
      by_contra hp
      have hle := Event.countP_take_le es Event.isDot (show p + 1 ≤ first by omega)
      omega
    · by_contra hp
      have hle := Event.countP_take_le es Event.isDot (show last ≤ p by omega)
      omega
  · rintro ⟨hstart, hstop⟩
    have hle := Event.countP_take_le es Event.isDot (Nat.le_of_lt hstart)
    have hlt := Event.countP_take_le es Event.isDot (show p + 1 ≤ last by omega)
    exact ⟨hle, by omega⟩

end Elements

/-- The members of every layout are coherent. -/
theorem coherent_of_ofRow {s : Settings} {row : Row} {l : Layout} (h : ofRow s row = .ok l) : Coherent l := by
  obtain rfl := eq_layout_of_ofRow h
  constructor
  case number =>
    intro k b hb
    exact ⟨(exists_reaches hb).1, group?_drawn hb⟩
  case range =>
    intro b hb
    obtain ⟨-, first, last, reaches⟩ := exists_of_mem_groups hb
    exact reaches.range
  case elementsIn =>
    intro b hb
    obtain ⟨hfound, first, last, reaches⟩ := exists_of_mem_groups hb
    have hsize : b.elements.stop ≤ (drawn s.spacing row.events).layout.elements.size := reaches.range.2
    simp only [elementsIn, hfound, Array.length_toList, Array.size_extract]
    omega
  case member =>
    intro b hb i e he
    obtain ⟨-, first, last, reaches⟩ := exists_of_mem_groups hb
    obtain ⟨p, c, hp, rfl, rfl⟩ := exists_place_of_element he
    rw [reaches.mem_range hp]
    exact (reaches.mem_path_event hp rfl).symm
  case lineage =>
    intro e he outer id inner hpath
    obtain ⟨p, c, -, rfl⟩ := exists_place_of_mem_elements he
    obtain ⟨b, first, last, hb, -, reaches, houter⟩ := exists_group_of_path (s := s.spacing) hpath
    exact ⟨b, hb, by rw [reaches.parent, houter]⟩
  case depth =>
    intro e he
    obtain ⟨p, c, -, rfl⟩ := exists_place_of_mem_elements he
    rfl
  case child =>
    intro b hb p hp
    obtain ⟨-, first, last, reaches⟩ := exists_of_mem_groups hb
    exact exists_parent reaches hp
  case root =>
    intro b hb hp
    obtain ⟨-, first, last, reaches⟩ := exists_of_mem_groups hb
    rw [reaches.parent, List.getLast?_eq_none_iff] at hp
    rw [reaches.depth, hp, List.length_nil]
  case within =>
    intro a ha b hb habove
    obtain ⟨f, l, f', l', hra, hrb, hfirst, hlast⟩ := exists_within ha hb habove
    rw [hra.elements, hrb.elements]
    exact ⟨Event.countP_take_le _ _ (Nat.le_of_lt hfirst), Event.countP_take_le _ _ (Nat.le_of_lt hlast)⟩
  case apart =>
    intro a ha b hb hne hab hba
    obtain ⟨f, l, f', l', hra, hrb, hlt⟩ := exists_apart ha hb hne hab hba
    rw [hra.elements, hrb.elements]
    exact hlt.imp (fun h => Event.countP_take_le _ _ (Nat.le_of_lt h))
      fun h => Event.countP_take_le _ _ (Nat.le_of_lt h)

/-- An empty group and a place without dots next to dots, all in a group. -/
theorem coherent_of_empty_group :
    let o : Symbol := ⟨'•', by decide +kernel⟩
    let head : Head := ⟨none, none, default, default⟩
    let row : Row := .group head (.cluster ⟨-2, o, default⟩ none (.group head .nil none (.cluster ⟨0, o, default⟩ none
      .nil))) none .nil
    ∃ l, ofRow {} row = .ok l ∧ Coherent l ∧ l.groups.size = 2 ∧ l.elements.size = 2 := by
  intro o head row
  have h : ofRow {} row = .ok (drawn {} row.events).layout := rfl
  exact ⟨_, h, coherent_of_ofRow h, by decide +kernel, by decide +kernel⟩

end Layout

end Dotwork
