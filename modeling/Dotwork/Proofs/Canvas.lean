import Dotwork.Proofs.Drawing
import Mathlib.Data.List.Induction
import Mathlib.Data.List.Infix

/-!
# The canvas behind some events

What stands on a canvas behind some events, read off the events alone: the next column, the open groups, and all
that is placed. A group is closed by the event that matches the one that has opened it, and what comes behind
leaves it as it is.
-/

namespace Dotwork.Layout

/-! ### What an event makes -/

/-- The element of a dot behind some events. -/
def elementAt (s : Spacing) (before : List Event) (c : Cluster) : Element where
  id := ⟨before.countP Event.isDot⟩
  position := ⟨Event.extent s before, (Event.path before).length⟩
  symbol := c.symbol
  sign := c.sign
  path := Event.path before
  source := c.span

/-- The marker of a plus join behind some events. -/
def markerAt (s : Spacing) (before : List Event) (source : Span) : Marker where
  column := Grid.Columns.middle ⟨Event.extent s before, Event.extent s (before ++ [.plus source])⟩
  depth := (Event.path before).length
  group := (Event.path before).getLast?
  source := source

/-- The boundary of a group that is opened behind some events and closed behind the events inside. -/
def boundaryAt (s : Spacing) (before : List Event) (h : Head) (inside : List Event) : Boundary where
  id := ⟨Bracket.openings (Event.brackets before)⟩
  parent := (Event.path before).getLast?
  depth := (Event.path before).length + 1
  sign := h.sign.map Located.value
  magnitude := h.magnitude.map Located.value
  columns := ⟨Event.extent s before, Event.extent s (before ++ .opening h :: inside ++ [.closing])⟩
  elements := ⟨before.countP Event.isDot, (before ++ .opening h :: inside).countP Event.isDot⟩
  source := h.span

def elementsOf (s : Spacing) (before : List Event) : Event → List Element
  | .dot c => [elementAt s before c]
  | .zero | .space | .plus _ | .opening _ | .closing => []

def markersOf (s : Spacing) (before : List Event) : Event → List Marker
  | .plus source => [markerAt s before source]
  | .dot _ | .zero | .space | .opening _ | .closing => []

/-! ### One event -/

namespace Canvas
variable (s : Spacing) (k : Canvas)

theorem draw_position (e : Event) : (k.draw s e).cursor.position = Word.add k.cursor.position (e.width s) := by
  cases e with
  | closing =>
    simp only [draw, closeGroup]
    split <;> rfl
  | dot | zero | space | plus | opening => rfl

theorem draw_path (e : Event) :
    (k.draw s e).path =
      match e.bracket? with
      | some .opening => k.path ++ [⟨k.groups.size⟩]
      | some .closing => k.path.dropLast
      | none => k.path := by
  cases e with
  | closing =>
    simp only [draw, closeGroup, Event.bracket?]
    split
    · next hlast => simp [List.getLast?_eq_none_iff.mp hlast]
    · rfl
  | dot | zero | space | plus | opening => rfl

theorem draw_groups_size (e : Event) :
    (k.draw s e).groups.size = k.groups.size + Bracket.openings (Event.brackets [e]) := by
  cases e with
  | closing =>
    simp only [draw, closeGroup]
    split
    · rfl
    · exact Array.size_modify
  | opening h => exact Array.size_push _
  | dot | zero | space | plus => rfl

theorem draw_elements (e : Event) :
    (k.draw s e).elements.toList =
      k.elements.toList ++
        match e with
        | .dot c => [⟨⟨k.elements.size⟩, ⟨k.cursor.position, k.path.length⟩, c.symbol, c.sign, k.path, c.span⟩]
        | .zero | .space | .plus _ | .opening _ | .closing => [] := by
  cases e with
  | dot c => exact Array.toList_push
  | closing =>
    simp only [draw, closeGroup, List.append_nil]
    split <;> rfl
  | zero | space | plus | opening => exact (List.append_nil _).symm

theorem draw_unions (e : Event) :
    (k.draw s e).unions.toList =
      k.unions.toList ++
        match e with
        | .plus source =>
          [⟨Grid.Columns.middle ⟨k.cursor.position, Word.add k.cursor.position s.unionGap⟩, k.path.length,
            k.path.getLast?, source⟩]
        | .dot _ | .zero | .space | .opening _ | .closing => [] := by
  cases e with
  | plus source => exact Array.toList_push
  | closing =>
    simp only [draw, closeGroup, List.append_nil]
    split <;> rfl
  | dot | zero | space | opening => exact (List.append_nil _).symm

/-- An event changes a group that is there only by closing it. -/
theorem draw_groups_getElem? (e : Event) {i : Nat} (hi : i < k.groups.size)
    (h : e = .closing → k.path.getLast? ≠ some ⟨i⟩) : (k.draw s e).groups[i]? = k.groups[i]? := by
  cases e with
  | opening head => exact (Array.getElem?_push_lt hi).trans (Array.getElem?_eq_getElem hi).symm
  | closing =>
    simp only [draw, closeGroup]
    split
    · rfl
    · next id hlast =>
      have hne : id.index ≠ i := fun heq => h rfl (by rw [hlast, ← heq])
      rw [Array.getElem?_modify, if_neg hne]
  | dot | zero | space | plus => rfl

/-! ### Cursors and slots behind some events -/

theorem le_drawAll_position {k : Canvas} (es : List Event) (hk : k.cursor.position ≤ Word.greatest) :
    k.cursor.position ≤ (k.drawAll s es).cursor.position := by
  induction es generalizing k with
  | nil => exact Nat.le_refl _
  | cons e es ih =>
    have hstep := draw_position s k e
    have hnext := ih (k := k.draw s e) (hstep ▸ Word.add_le_greatest _ _)
    rw [hstep] at hnext
    exact Nat.le_trans (Word.le_add hk) hnext

theorem word_drawAll {k : Canvas} (es : List Event) (hk : k.cursor.position ≤ Word.greatest) :
    (k.drawAll s es).cursor.position ≤ Word.greatest := by
  induction es generalizing k with
  | nil => exact hk
  | cons e es ih =>
    apply ih
    rw [draw_position]
    exact Word.add_le_greatest _ _

theorem drawAll_groups_size (es : List Event) :
    (k.drawAll s es).groups.size = k.groups.size + Bracket.openings (Event.brackets es) := by
  induction es generalizing k with
  | nil => rfl
  | cons e es ih =>
    have split : Event.brackets (e :: es) = Event.brackets [e] ++ Event.brackets es := Event.brackets_append [e] es
    rw [drawAll_cons, ih, draw_groups_size, split, Bracket.openings_append, Nat.add_assoc]

/-! ### Groups that some events leave as they are -/

/-- Events that close no group that was open before leave all groups that were there as they are. -/
theorem drawAll_within {es : List Event} {k : Canvas} {base inner : List GroupId} {n depth last : Nat}
    (hlevel : Bracket.level depth (Event.brackets es) = some last) (hpath : k.path = base ++ inner)
    (hdepth : inner.length = depth) (hinner : ∀ id ∈ inner, n ≤ id.index) (hn : n ≤ k.groups.size) :
    (∃ inner', (k.drawAll s es).path = base ++ inner' ∧ inner'.length = last) ∧
      ∀ i < n, (k.drawAll s es).groups[i]? = k.groups[i]? := by
  induction es generalizing k inner depth with
  | nil =>
    cases hlevel
    exact ⟨⟨inner, hpath, hdepth⟩, fun i _ => rfl⟩
  | cons e es ih =>
    rw [drawAll_cons]
    have hsize : n ≤ (k.draw s e).groups.size := by
      rw [draw_groups_size]
      omega
    have hpath' := draw_path s k e
    -- A bracket changes what is open inside, and no event touches a group before `n`.
    cases hb : e.bracket? with
    | none =>
      rw [hb] at hpath'
      rw [Event.brackets, List.filterMap_cons_none hb] at hlevel
      obtain ⟨hopen, hkeep⟩ := ih hlevel (hpath'.trans hpath) hdepth hinner hsize
      refine ⟨hopen, fun i hi => (hkeep i hi).trans (draw_groups_getElem? s k e (by omega) fun he => ?_)⟩
      simp [he, Event.bracket?] at hb
    | some b =>
      rw [hb] at hpath'
      rw [Event.brackets, List.filterMap_cons_some hb] at hlevel
      cases b with
      | opening =>
        have hbase : (k.draw s e).path = base ++ (inner ++ [⟨k.groups.size⟩]) := by
          rw [hpath', hpath, List.append_assoc]
        have hinner' : ∀ id ∈ inner ++ [⟨k.groups.size⟩], n ≤ id.index := fun id hid => by
          rcases List.mem_append.mp hid with hid | hid
          · exact hinner id hid
          · rw [List.mem_singleton.mp hid]
            exact hn
        obtain ⟨hopen, hkeep⟩ := ih hlevel hbase (by simp [hdepth]) hinner' hsize
        refine ⟨hopen, fun i hi => (hkeep i hi).trans (draw_groups_getElem? s k e (by omega) fun he => ?_)⟩
        simp [he, Event.bracket?] at hb
      | closing =>
        cases depth with
        | zero => cases hlevel
        | succ depth =>
          have hne : inner ≠ [] := List.ne_nil_of_length_eq_add_one hdepth
          have hbase : (k.draw s e).path = base ++ inner.dropLast := by
            rw [hpath', hpath, List.dropLast_append_of_ne_nil hne]
          obtain ⟨hopen, hkeep⟩ := ih hlevel hbase (by simp [hdepth])
            (fun id hid => hinner id (List.mem_of_mem_dropLast hid)) hsize
          refine ⟨hopen, fun i hi => (hkeep i hi).trans (draw_groups_getElem? s k e (by omega) fun _ hlast => ?_)⟩
          rw [hpath, List.getLast?_append_of_ne_nil _ hne] at hlast
          have := hinner _ (List.mem_of_getLast? hlast)
          simp only at this
          omega

/-- Events whose brackets match leave the open groups, and all groups that were there, as they are. -/
theorem drawAll_balanced {es : List Event} (h : Bracket.Balanced (Event.brackets es)) :
    (k.drawAll s es).path = k.path ∧ ∀ i < k.groups.size, (k.drawAll s es).groups[i]? = k.groups[i]? := by
  obtain ⟨⟨inner, hpath, hinner⟩, hkeep⟩ := drawAll_within s h (List.append_nil k.path).symm rfl
    (fun id hid => by cases hid) (Nat.le_refl _)
  obtain rfl := List.length_eq_zero_iff.mp hinner
  rw [List.append_nil] at hpath
  exact ⟨hpath, hkeep⟩

/-- A group that is not open is left as it is. -/
theorem drawAll_closed (es : List Event) {k : Canvas} {i : Nat} (hi : i < k.groups.size) (hclosed : ⟨i⟩ ∉ k.path) :
    (k.drawAll s es).groups[i]? = k.groups[i]? := by
  induction es generalizing k with
  | nil => rfl
  | cons e es ih =>
    have hsize : i < (k.draw s e).groups.size := by
      rw [draw_groups_size]
      omega
    have hpath : ⟨i⟩ ∉ (k.draw s e).path := by
      rw [draw_path]
      split
      · rw [List.mem_append, List.mem_singleton]
        rintro (h | h)
        · exact hclosed h
        · cases h
          omega
      · exact fun h => hclosed (List.mem_of_mem_dropLast h)
      · exact hclosed
    rw [drawAll_cons, ih hsize hpath]
    exact draw_groups_getElem? s k e hi fun _ hlast => hclosed (List.mem_of_getLast? hlast)

end Canvas

/-! ### All events -/

section Drawn
variable (s : Spacing) (es : List Event)

theorem drawn_append (fs : List Event) : drawn s (es ++ fs) = (drawn s es).drawAll s fs :=
  Canvas.drawAll_append es fs

theorem drawn_concat (e : Event) : drawn s (es ++ [e]) = (drawn s es).draw s e :=
  drawn_append s es [e]

theorem extent_concat (e : Event) : Event.extent s (es ++ [e]) = Word.add (Event.extent s es) (e.width s) := by
  simp only [Event.extent, Word.add, List.map_append, List.map_cons, List.map_nil, List.sum_append, List.sum_cons,
    List.sum_nil]
  omega

theorem drawn_position : (drawn s es).cursor.position = Event.extent s es := by
  induction es using List.reverseRecOn with
  | nil => rfl
  | append_singleton es e ih => rw [drawn_concat, Canvas.draw_position, ih, extent_concat]

theorem drawn_groups_size : (drawn s es).groups.size = Bracket.openings (Event.brackets es) := by
  induction es using List.reverseRecOn with
  | nil => rfl
  | append_singleton es e ih =>
    rw [drawn_concat, Canvas.draw_groups_size, ih]
    simp [Event.brackets, Bracket.openings]

theorem path_concat (e : Event) :
    Event.path (es ++ [e]) =
      match e.bracket? with
      | some .opening => Event.path es ++ [⟨Bracket.openings (Event.brackets es)⟩]
      | some .closing => (Event.path es).dropLast
      | none => Event.path es := by
  unfold Event.path Event.brackets
  rw [List.filterMap_append]
  cases hb : e.bracket? with
  | none => simp [hb]
  | some b =>
    cases b with
    | opening => simp [hb, Bracket.opened_concat_opening]
    | closing => simp [hb, Bracket.opened_concat_closing]

theorem drawn_path : (drawn s es).path = Event.path es := by
  induction es using List.reverseRecOn with
  | nil => rfl
  | append_singleton es e ih => rw [drawn_concat, Canvas.draw_path, ih, path_concat, drawn_groups_size]

theorem drawn_elements_size : (drawn s es).elements.size = es.countP Event.isDot := by
  induction es using List.reverseRecOn with
  | nil => rfl
  | append_singleton es e ih =>
    rw [drawn_concat, ← Array.length_toList, Canvas.draw_elements, List.length_append, Array.length_toList, ih]
    cases e <;> simp [Event.isDot]

/-- The elements are those of the dots, in the order of the text. -/
theorem drawn_elements : (drawn s es).elements.toList = scan (elementsOf s) [] es := by
  induction es using List.reverseRecOn with
  | nil => rfl
  | append_singleton es e ih =>
    rw [drawn_concat, Canvas.draw_elements, ih, scan_concat, List.nil_append]
    cases e with
    | dot c => simp only [elementsOf, elementAt, drawn_elements_size, drawn_position, drawn_path]
    | zero | space | plus | opening | closing => rfl

/-- The markers are those of the plus joins, in the order of the text. -/
theorem drawn_unions : (drawn s es).unions.toList = scan (markersOf s) [] es := by
  induction es using List.reverseRecOn with
  | nil => rfl
  | append_singleton es e ih =>
    rw [drawn_concat, Canvas.draw_unions, ih, scan_concat, List.nil_append]
    cases e with
    | plus source => simp only [markersOf, markerAt, drawn_position, drawn_path, extent_concat, Event.width]
    | dot | zero | space | opening | closing => rfl

theorem drawn_unions_size : (drawn s es).unions.size = es.countP Event.isPlus := by
  rw [← Array.length_toList, drawn_unions]
  refine length_scan (fun before e => ?_) [] es
  cases e <;> rfl

theorem getElem?_drawn_elements {before after : List Event} {c : Cluster} (h : es = before ++ .dot c :: after) :
    (drawn s es).elements[before.countP Event.isDot]? = some (elementAt s before c) := by
  rw [← Array.getElem?_toList, drawn_elements, h]
  exact getElem?_scan (fun before e => by cases e <;> rfl) rfl

theorem getElem?_drawn_unions {before after : List Event} {source : Span} (h : es = before ++ .plus source :: after) :
    (drawn s es).unions[before.countP Event.isPlus]? = some (markerAt s before source) := by
  rw [← Array.getElem?_toList, drawn_unions, h]
  exact getElem?_scan (fun before e => by cases e <;> rfl) rfl

theorem path_lt_openings {es : List Event} {id : GroupId} (h : id ∈ Event.path es) :
    id.index < Bracket.openings (Event.brackets es) := by
  obtain ⟨n, hn, rfl⟩ := List.mem_map.mp h
  exact Bracket.lt_openings_of_mem_opened hn

end Drawn

/-! ### The boundary of a group -/

section Group
variable (s : Spacing) (before : List Event) (h : Head) {inside : List Event}

/-- Behind its opening a group has a boundary that only its closing has to extend. -/
theorem drawn_opening (inside : List Event) :
    ∃ b, (drawn s (before ++ [.opening h])).groups[Bracket.openings (Event.brackets before)]? = some b ∧
      Canvas.extend (Event.extent s (before ++ .opening h :: inside ++ [.closing]))
        ((before ++ .opening h :: inside).countP Event.isDot) b = boundaryAt s before h inside := by
  rw [drawn_concat, ← drawn_groups_size s before]
  refine ⟨_, Array.getElem?_push_size, ?_⟩
  simp only [Canvas.extend, boundaryAt, drawn_position, drawn_path, drawn_elements_size, drawn_groups_size]

/-- What is inside a group leaves its boundary as it is, and the group innermost. -/
theorem drawn_inside (balanced : Bracket.Balanced (Event.brackets inside)) :
    (drawn s (before ++ .opening h :: inside)).path =
        Event.path before ++ [⟨Bracket.openings (Event.brackets before)⟩] ∧
      (drawn s (before ++ .opening h :: inside)).groups[Bracket.openings (Event.brackets before)]? =
        (drawn s (before ++ [.opening h])).groups[Bracket.openings (Event.brackets before)]? := by
  have hopen : (drawn s (before ++ [.opening h])).path =
      Event.path before ++ [⟨Bracket.openings (Event.brackets before)⟩] := by
    rw [drawn_path, path_concat]
    rfl
  have hsize : Bracket.openings (Event.brackets before) < (drawn s (before ++ [.opening h])).groups.size := by
    rw [drawn_groups_size]
    simp [Bracket.openings]
  obtain ⟨hpath, hkeep⟩ := Canvas.drawAll_balanced s (drawn s (before ++ [.opening h])) balanced
  rw [List.append_cons, drawn_append, hpath, hopen]
  exact ⟨rfl, hkeep _ hsize⟩

theorem drawn_closing (balanced : Bracket.Balanced (Event.brackets inside)) :
    (drawn s (before ++ .opening h :: inside ++ [.closing])).path = Event.path before ∧
      (drawn s (before ++ .opening h :: inside ++ [.closing])).groups[Bracket.openings (Event.brackets before)]? =
        some (boundaryAt s before h inside) := by
  obtain ⟨b, hb, hextend⟩ := drawn_opening s before h inside
  obtain ⟨hpath, hgroup⟩ := drawn_inside s before h balanced
  have hstop : ((drawn s (before ++ .opening h :: inside)).cursor.advance s.groupPadding).position =
      Event.extent s (before ++ .opening h :: inside ++ [.closing]) := by
    rw [extent_concat, ← drawn_position]
    rfl
  rw [drawn_concat]
  constructor
  · rw [Canvas.draw_path, hpath]
    exact List.dropLast_concat
  · simp only [Canvas.draw, Canvas.closeGroup, hpath, List.getLast?_concat, Array.getElem?_modify, ↓reduceIte,
      hgroup, hb, Option.map_some, hstop, drawn_elements_size, hextend]

/-- The boundary of a group is fixed by the events in front of it and inside. -/
theorem drawn_group (after : List Event) (balanced : Bracket.Balanced (Event.brackets inside)) :
    (drawn s (before ++ .opening h :: (inside ++ .closing :: after))).groups[Bracket.openings
      (Event.brackets before)]? = some (boundaryAt s before h inside) := by
  obtain ⟨hpath, hgroup⟩ := drawn_closing s before h balanced
  have hsplit : before ++ .opening h :: (inside ++ .closing :: after) =
      before ++ .opening h :: inside ++ [.closing] ++ after := by simp
  have hsize := (Array.getElem?_eq_some_iff.mp hgroup).1
  rw [hsplit, drawn_append, Canvas.drawAll_closed s after hsize, hgroup]
  -- All groups that are still open were opened before this one.
  rw [hpath]
  exact fun hmem => Nat.lt_irrefl _ (path_lt_openings hmem)

end Group

end Dotwork.Layout
