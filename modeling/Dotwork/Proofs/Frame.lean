import Dotwork.Proofs.Guards

/-!
# The frame of placing

What placing does to a canvas that holds something already. A row, or one term of it, is placed inside the groups that
are open and leaves them open; it adds its parts behind those that are there, and changes none of them. Each part that
it adds stands in the open groups, and in groups that it adds, too.
-/

namespace Dotwork

open Layout (GroupId)

/-! ### The groups around the parts of a row -/

theorem Part.path_of_mem_dots (part : Part) {dot : Symbol × Sign × Span × List GroupId} (h : dot ∈ part.dots) :
    dot.2.2.2 = part.path := by
  obtain ⟨path, _ | _ | _⟩ := part
  · rw [List.eq_of_mem_replicate h]
  · cases h
  · cases h

namespace Row
variable {path : List GroupId} {next : Nat} {part : Part} {b : Layout.Boundary}

theorem path_of_mem_joinParts {join : Option (Located Join)} {rest : Row} (h : part ∈ joinParts path join rest) :
    part.path = path := by
  unfold joinParts at h
  split at h
  · split at h
    · cases h
    · rw [List.mem_singleton.mp h]
  · cases h
  · cases h

theorem path_prefix_of_mem_partsIn {row : Row} (h : part ∈ row.partsIn path next) : path <+: part.path := by
  induction row generalizing path next with
  | nil => cases h
  | cluster c join rest ih =>
    simp only [partsIn, List.mem_cons, List.mem_append] at h
    rcases h with rfl | h | h
    · exact List.prefix_rfl
    · rw [path_of_mem_joinParts h]
    · exact ih h
  | group head body join rest ihb ih =>
    simp only [partsIn, List.mem_cons, List.mem_append] at h
    rcases h with rfl | h | h | h
    · exact List.prefix_rfl
    · exact (List.prefix_append path _).trans (ihb h)
    · rw [path_of_mem_joinParts h]
    · exact ih h

/-- The groups of a row are numbered in the order of the text. -/
theorem ids_boundaries (row : Row) (path : List GroupId) (next : Nat) :
    ((row.partsIn path next).flatMap Part.boundary).map (·.id) =
      (List.range' next row.groupCount).map GroupId.mk := by
  induction row generalizing path next with
  | nil => rfl
  | cluster c join rest ih =>
    simp only [partsIn, List.flatMap_cons, List.flatMap_append, Layout.flatMap_boundary_joinParts, groupCount]
    exact ih path next
  | group h body join rest ihb ih =>
    simp only [partsIn, List.flatMap_cons, List.flatMap_append, Layout.flatMap_boundary_joinParts, groupCount,
      Part.boundary, List.nil_append, List.singleton_append, List.map_cons, List.map_append, ihb, ih]
    have split : List.range' next (body.groupCount + 1 + rest.groupCount) =
        next :: (List.range' (next + 1) body.groupCount ++
          List.range' (next + 1 + body.groupCount) rest.groupCount) := by
      rw [Nat.add_right_comm, List.range'_succ, List.range'_append_1]
    rw [split, List.map_cons, List.map_append]

/-- Around a group of a row are the groups of the path alone, or a group of the row that is opened in front of it. -/
theorem parent_of_mem_boundaries {row : Row} (h : b ∈ (row.partsIn path next).flatMap Part.boundary) :
    next ≤ b.id.index ∧ (b.parent = path.getLast? ∨ ∃ m, next ≤ m ∧ m < b.id.index ∧ b.parent = some ⟨m⟩) := by
  induction row generalizing path next with
  | nil => cases h
  | cluster c join rest ih =>
    simp only [partsIn, List.flatMap_cons, List.flatMap_append, Layout.flatMap_boundary_joinParts, Part.boundary,
      List.nil_append] at h
    exact ih h
  | group head body join rest ihb ih =>
    simp only [partsIn, List.flatMap_cons, List.flatMap_append, Layout.flatMap_boundary_joinParts, Part.boundary,
      List.nil_append, List.singleton_append, List.mem_cons, List.mem_append] at h
    rcases h with rfl | h | h
    · exact ⟨Nat.le_refl _, Or.inl rfl⟩
    · obtain ⟨hnext, hparent | ⟨m, hm, hlt, hparent⟩⟩ := ihb h
      · rw [List.getLast?_concat] at hparent
        exact ⟨by omega, Or.inr ⟨next, Nat.le_refl _, hnext, hparent⟩⟩
      · exact ⟨by omega, Or.inr ⟨m, by omega, hlt, hparent⟩⟩
    · obtain ⟨hnext, hparent | ⟨m, hm, hlt, hparent⟩⟩ := ih h
      · exact ⟨by omega, Or.inl hparent⟩
      · exact ⟨by omega, Or.inr ⟨m, by omega, hlt, hparent⟩⟩

end Row

namespace Layout
variable {s : Settings} {k k' : Canvas}

/-! ### Terms -/

/-- Places one term, behind what is there. -/
def placeTerm (s : Settings) : Term → Canvas → Except Fault Canvas
  | .cluster c, k =>
    match refusal? s c.negativeSpan? with
    | some fault => .error fault
    | none => .ok (k.cluster s.spacing c)
  | .group h body, k =>
    match refusal? s h.negativeSpan? with
    | some fault => .error fault
    | none =>
      match place s body (k.openGroup s.spacing h) with
      | .error fault => .error fault
      | .ok k => .ok (k.closeGroup s.spacing)

/-- A row is placed term by term. -/
theorem place_cons (s : Settings) (e : Entry) (rest : Row) (k : Canvas) :
    place s (.cons e rest) k =
      match placeTerm s e.term k with
      | .error fault => .error fault
      | .ok k => place s rest (k.join s.spacing e.join rest) := by
  obtain ⟨t, join⟩ := e
  cases t with
  | cluster c =>
    simp only [Row.cons, place, placeTerm]
    cases refusal? s c.negativeSpan? <;> rfl
  | group h body =>
    simp only [Row.cons, place, placeTerm]
    cases refusal? s h.negativeSpan? with
    | some fault => rfl
    | none => cases place s body (k.openGroup s.spacing h) <;> rfl

/-- The row of one term. -/
def single (t : Term) : Row :=
  .cons ⟨t, none⟩ .nil

theorem place_single (s : Settings) (t : Term) (k : Canvas) : place s (single t) k = placeTerm s t k := by
  rw [single, place_cons]
  cases placeTerm s t k <;> rfl

/-! ### Views -/

namespace Canvas

theorem drawAll_flat (s : Spacing) (k : Canvas) {es : List Event} (flat : Event.brackets es = []) :
    (k.drawAll s es).path = k.path ∧ (k.drawAll s es).groups.size = k.groups.size := by
  refine ⟨(drawAll_balanced s k (by rw [flat]; rfl)).1, ?_⟩
  rw [drawAll_groups_size, flat]
  rfl

/-- What is seen of a canvas grows by what each part of a row shows. -/
structure Grows {β : Type} (s : Spacing) (view : Canvas → List β) (g : Part → List β) : Prop where
  cluster : ∀ k c, view (k.drawAll s c.events) = view k ++ g ⟨k.path, .cluster c⟩
  opening : ∀ k h, view (k.draw s (.opening h)) = view k ++ g ⟨k.path, .group ⟨k.groups.size⟩ h⟩
  plus : ∀ k source, view (k.draw s (.plus source)) = view k ++ g ⟨k.path, .plus source⟩
  space : ∀ k, view (k.draw s .space) = view k
  closing : ∀ k, view (k.draw s .closing) = view k

section Grows
variable {β : Type} {s : Spacing} {view : Canvas → List β} {g : Part → List β}

theorem Grows.joinEvents (grows : Grows s view g) (k : Canvas) (join : Option (Located Join)) (rest : Row) :
    view (k.drawAll s (Row.joinEvents join rest)) = view k ++ (Row.joinParts k.path join rest).flatMap g := by
  unfold Row.joinEvents Row.joinParts
  cases rest.isEmpty with
  | true => rcases join with _ | ⟨_ | _, _⟩ <;> simp [drawAll]
  | false => rcases join with _ | ⟨_ | _, source⟩ <;> simp [drawAll, grows.space, grows.plus]

/-- A row adds what its parts show, in the groups that are open and with the numbers that come next. -/
theorem Grows.events (grows : Grows s view g) (row : Row) (k : Canvas) :
    view (k.drawAll s row.events) = view k ++ (row.partsIn k.path k.groups.size).flatMap g := by
  induction row generalizing k with
  | nil => exact (List.append_nil _).symm
  | cluster c join rest ih =>
    obtain ⟨path, size⟩ := drawAll_flat s k (brackets_events c)
    obtain ⟨path', size'⟩ := drawAll_flat s (k.drawAll s c.events) (brackets_joinEvents join rest)
    rw [Row.events, drawAll_append, drawAll_append, ih, grows.joinEvents, grows.cluster, path', size', path, size]
    simp [Row.partsIn]
  | group h body join rest ihb ih =>
    -- The numbers of the body begin behind the group, and those of the rest behind the body.
    have opened : (k.draw s (.opening h)).path = k.path ++ [⟨k.groups.size⟩] := draw_path s k (.opening h)
    have first : (k.draw s (.opening h)).groups.size = k.groups.size + 1 := draw_groups_size s k (.opening h)
    have closed : (((k.draw s (.opening h)).drawAll s body.events).draw s .closing).path = k.path := by
      rw [draw_path]
      exact (congrArg List.dropLast (k.drawAll_body h body).1).trans List.dropLast_concat
    have last : (((k.draw s (.opening h)).drawAll s body.events).draw s .closing).groups.size =
        k.groups.size + 1 + body.groupCount := by
      rw [draw_groups_size, drawAll_groups_size, first, body.openings_events]
      rfl
    obtain ⟨path, size⟩ := drawAll_flat s (((k.draw s (.opening h)).drawAll s body.events).draw s .closing)
      (brackets_joinEvents join rest)
    rw [Row.events, drawAll_cons, drawAll_append, drawAll_cons, drawAll_append, ih, grows.joinEvents, grows.closing,
      ihb, grows.opening, path, size, closed, last, opened, first]
    simp [Row.partsIn]

/-! ### What is seen of a canvas -/

/-- A view to which each dot of a cluster adds the same, and its place without dots nothing. -/
theorem view_cluster (view : Canvas → List β) (f : List GroupId → Cluster → List β)
    (dot : ∀ k c, view (k.draw s (.dot c)) = view k ++ f k.path c) (zero : ∀ k, view (k.draw s .zero) = view k)
    (k : Canvas) (c : Cluster) :
    view (k.drawAll s c.events) = view k ++ (List.replicate c.magnitude (f k.path c)).flatten := by
  have dots : ∀ n k, view (k.drawAll s (List.replicate n (.dot c))) =
      view k ++ (List.replicate n (f k.path c)).flatten := by
    intro n
    induction n with
    | zero => exact fun k => (List.append_nil _).symm
    | succ n ih =>
      intro k
      have path : (k.draw s (.dot c)).path = k.path := rfl
      rw [List.replicate_succ, drawAll_cons, ih, path, dot, List.replicate_succ, List.flatten_cons, List.append_assoc]
  unfold Cluster.events
  split
  · next h => simpa [h, drawAll] using zero k
  · exact dots c.magnitude k

end Grows

theorem grows_dots (s : Spacing) :
    Grows s (fun k => k.elements.toList.map fun e => (e.symbol, e.sign, e.source, e.path)) Part.dots where
  cluster k c := by
    have cluster := view_cluster (s := s)
      (fun k => k.elements.toList.map fun e => (e.symbol, e.sign, e.source, e.path))
      (fun path c => [(c.symbol, c.sign, c.span, path)]) (fun k c => by rw [draw_elements, List.map_append]; rfl)
      (fun k => by rw [draw_elements, List.append_nil]) k c
    rwa [List.flatten_replicate_singleton] at cluster
  opening k h := by rw [draw_elements, List.append_nil]; exact (List.append_nil _).symm
  plus k source := by rw [draw_elements, List.append_nil]; exact (List.append_nil _).symm
  space k := by rw [draw_elements, List.append_nil]
  closing k := by rw [draw_elements, List.append_nil]

theorem grows_legends (s : Spacing) : Grows s (fun k => k.groups.toList.map Boundary.legend) Part.boundary where
  cluster k c := by
    have cluster := view_cluster (s := s) (fun k => k.groups.toList.map Boundary.legend) (fun _ _ => [])
      (fun k c => draw_legends s k (.dot c)) (fun k => (draw_legends s k .zero).trans (List.append_nil _)) k c
    rwa [List.flatten_replicate_nil] at cluster
  opening k h := draw_legends s k (.opening h)
  plus k source := draw_legends s k (.plus source)
  space k := (draw_legends s k .space).trans (List.append_nil _)
  closing k := (draw_legends s k .closing).trans (List.append_nil _)

theorem elements_prefix (s : Spacing) (k : Canvas) (es : List Event) :
    k.elements.toList <+: (k.drawAll s es).elements.toList := by
  induction es generalizing k with
  | nil => exact List.prefix_rfl
  | cons e es ih => exact List.IsPrefix.trans ⟨_, (draw_elements s k e).symm⟩ (ih _)

theorem unions_prefix (s : Spacing) (k : Canvas) (es : List Event) :
    k.unions.toList <+: (k.drawAll s es).unions.toList := by
  induction es generalizing k with
  | nil => exact List.prefix_rfl
  | cons e es ih => exact List.IsPrefix.trans ⟨_, (draw_unions s k e).symm⟩ (ih _)

theorem groups_prefix (s : Spacing) (k : Canvas) {es : List Event} (h : Bracket.Balanced (Event.brackets es)) :
    k.groups.toList <+: (k.drawAll s es).groups.toList := by
  rw [List.prefix_iff_getElem?]
  intro i hi
  rw [Array.length_toList] at hi
  rw [Array.getElem?_toList, (drawAll_balanced s k h).2 i hi, Array.getElem?_eq_getElem hi, Array.getElem_toList]

end Canvas

/-! ### The frame -/

/-- What placing a row on a canvas leaves as it is, and what it adds. -/
structure Canvas.Framed (k : Canvas) (row : Row) (k' : Canvas) : Prop where
  path : k'.path = k.path
  cursor : k.cursor.position ≤ k'.cursor.position
  elements : ∃ added, k'.elements.toList = k.elements.toList ++ added ∧
    added.map (fun e => (e.symbol, e.sign, e.source, e.path)) =
      (row.partsIn k.path k.groups.size).flatMap Part.dots ∧
    ∀ e ∈ added, k.path <+: e.path
  unions : k.unions.toList <+: k'.unions.toList
  groups : ∃ added, k'.groups.toList = k.groups.toList ++ added ∧
    added.map Boundary.legend = (row.partsIn k.path k.groups.size).flatMap Part.boundary ∧
    added.map (·.id) = (List.range' k.groups.size row.groupCount).map GroupId.mk ∧
    ∀ b ∈ added, b.parent = k.path.getLast? ∨ ∃ p ∈ added, p.id.index < b.id.index ∧ b.parent = some p.id

/-- The groups on the canvas have the numbers of their slots, and those that are open are among them. -/
structure Canvas.Keyed (k : Canvas) : Prop where
  numbers : ∀ (i : Nat) b, k.groups[i]? = some b → b.id = ⟨i⟩
  path : ∀ id ∈ k.path, id.index < k.groups.size

theorem Canvas.Keyed.blank : Canvas.blank.Keyed where
  numbers _ _ h := by cases h
  path _ h := by cases h

theorem Canvas.Keyed.draw (h : k.Keyed) (s : Spacing) (e : Event) : (k.draw s e).Keyed where
  numbers := number_draw h.numbers e
  path id hid := by
    rw [draw_path] at hid
    rw [draw_groups_size]
    split at hid
    · next hb =>
      rcases List.mem_append.mp hid with hid | hid
      · exact Nat.lt_add_right _ (h.path id hid)
      · rw [List.mem_singleton.mp hid]
        simp [Event.brackets, List.filterMap_cons_some hb, Bracket.openings]
    · exact Nat.lt_add_right _ (h.path id (List.mem_of_mem_dropLast hid))
    · exact Nat.lt_add_right _ (h.path id hid)

theorem Canvas.Keyed.drawAll (h : k.Keyed) (s : Spacing) (es : List Event) : (k.drawAll s es).Keyed := by
  induction es generalizing k with
  | nil => exact h
  | cons e es ih => exact ih (h.draw s e)

theorem framed_drawAll (s : Spacing) (word : k.cursor.position ≤ Word.greatest) (row : Row) :
    k.Framed row (k.drawAll s row.events) where
  path := (Canvas.drawAll_balanced s k (row.level_events 0)).1
  cursor := Canvas.le_drawAll_position s row.events word
  elements := by
    obtain ⟨added, hadded⟩ := Canvas.elements_prefix s k row.events
    have dots := (Canvas.grows_dots s).events row k
    rw [← hadded, List.map_append, List.append_cancel_left_eq] at dots
    refine ⟨added, hadded.symm, dots, fun e he => ?_⟩
    obtain ⟨part, hpart, hdot⟩ := List.mem_flatMap.mp (dots ▸ List.mem_map_of_mem he)
    have around : e.path = part.path := part.path_of_mem_dots hdot
    exact around ▸ Row.path_prefix_of_mem_partsIn hpart
  unions := Canvas.unions_prefix s k row.events
  groups := by
    obtain ⟨added, hadded⟩ := Canvas.groups_prefix s k (row.level_events 0)
    have legends := (Canvas.grows_legends s).events row k
    rw [← hadded, List.map_append, List.append_cancel_left_eq] at legends
    have ids : added.map (·.id) = (List.range' k.groups.size row.groupCount).map GroupId.mk := by
      rw [← row.ids_boundaries k.path, ← legends, List.map_map]
      rfl
    refine ⟨added, hadded.symm, legends, ids, fun b hb => ?_⟩
    have shown : b.legend ∈ (row.partsIn k.path k.groups.size).flatMap Part.boundary :=
      legends ▸ List.mem_map_of_mem hb
    obtain ⟨-, hparent | ⟨m, hm, hlt : m < b.id.index, hparent⟩⟩ := Row.parent_of_mem_boundaries shown
    · exact Or.inl hparent
    · -- The numbers have no gaps, so the number of the parent is that of a group that comes in, too.
      have own : b.id ∈ (List.range' k.groups.size row.groupCount).map GroupId.mk := ids ▸ List.mem_map_of_mem hb
      obtain ⟨n, hn, hid⟩ := List.mem_map.mp own
      rw [List.mem_range'_1] at hn
      have parent : (⟨m⟩ : GroupId) ∈ added.map (·.id) := by
        rw [ids]
        have : m < n := by rwa [← hid] at hlt
        exact List.mem_map_of_mem (List.mem_range'_1.mpr ⟨hm, by omega⟩)
      obtain ⟨p, hp, hpid⟩ := List.mem_map.mp parent
      exact Or.inr ⟨p, hp, hpid ▸ hlt, hpid ▸ hparent⟩

theorem eq_drawAll_of_place {row : Row} (h : place s row k = .ok k') : k' = k.drawAll s.spacing row.events := by
  rw [place_eq] at h
  split at h
  · cases h
  · exact (Except.ok.inj h).symm

/-- Placing a row, or a cluster or a group alone, leaves the open groups as they are, does not go back to the left, and
    adds its parts behind what is there. A canvas that is keyed stays so. -/
theorem framed_of_place (s : Settings) {k : Canvas} (word : k.cursor.position ≤ Word.greatest) :
    (∀ row k', place s row k = .ok k' → k.Framed row k' ∧ (k.Keyed → k'.Keyed)) ∧
      ∀ t k', placeTerm s t k = .ok k' → k.Framed (single t) k' ∧ (k.Keyed → k'.Keyed) := by
  have rows : ∀ row k', place s row k = .ok k' → k.Framed row k' ∧ (k.Keyed → k'.Keyed) := by
    intro row k' h
    obtain rfl := eq_drawAll_of_place h
    exact ⟨framed_drawAll s.spacing word row, fun keyed => keyed.drawAll s.spacing row.events⟩
  exact ⟨rows, fun t k' h => rows (single t) k' (by rw [place_single, h])⟩

/-- A group with a group in it is placed on a canvas where a group is open that holds a dot and a plus join. -/
theorem framed_in_open_group :
    let dot : Cluster := ⟨1, ⟨'◊', by decide +kernel⟩, ⟨1, 5⟩⟩
    let head : Head := ⟨none, none, ⟨6, 14⟩, ⟨6, 14⟩⟩
    let k := drawn {} [.opening ⟨none, none, ⟨0, 15⟩, ⟨0, 15⟩⟩, .dot dot, .plus ⟨5, 6⟩]
    let t : Term := .group head (.group ⟨none, none, ⟨7, 9⟩, ⟨7, 9⟩⟩ .nil none (.cluster dot none .nil))
    k.Keyed ∧ k.path = [⟨0⟩] ∧
      ∃ k', placeTerm {} t k = .ok k' ∧ k.Framed (single t) k' ∧ k'.Keyed ∧
        k'.groups.toList.map (·.parent) = [none, some ⟨0⟩, some ⟨1⟩] := by
  intro dot head k t
  have word : k.cursor.position ≤ Word.greatest := by decide
  have keyed : k.Keyed := Canvas.Keyed.blank.drawAll {} _
  obtain ⟨framed, stays⟩ := (framed_of_place {} word).2 t _ rfl
  exact ⟨keyed, rfl, _, rfl, framed, stays keyed, by decide +kernel⟩

end Layout

end Dotwork
