import Dotwork.Proofs.Depiction

/-!
# Placing with guards

Some of the steps that place a row have no result for all arguments: a range whose bounds are out of order, a difference
below zero, a sum beyond the greatest word, an element whose path is not as long as its depth, the boundary of a group
that has a slot already or has none. Here a row is placed with a guard in front of each of these steps. No guard ever
stops, so that the outcome is that of placing without them; and in the end every slot has been filled. Reserving the
storage of the elements is not one of these steps: that storage runs out is left outside.
-/

namespace Dotwork.Layout

/-- What ends placing with guards: the refusal of the row, or a step that has no result. -/
inductive Stop
  | refused (fault : Fault)
  | reversed (bounds : Grid.Columns.Reversed)
  | underflow (a b : Nat)
  | overflow (a b : Nat)
  | beyond (column : Nat) (gap : Grid.Columns)
  | uneven (e : Element)
  | taken (id : GroupId)
  | missing (id : GroupId)

/-- A canvas on which the boundary of an open group only keeps a slot for the one that the group has in the end;
    `filled` tells of each slot whether the boundary in it is the final one. -/
structure Draft where
  canvas : Canvas
  filled : Array Bool

namespace Guarded

def range (start stop : Nat) : Except Stop Grid.Columns :=
  (Grid.Columns.ofBounds start stop).mapError .reversed

def difference (a b : Nat) : Except Stop Nat :=
  if b ≤ a then .ok (a - b) else .error (.underflow a b)

def sum (a b : Nat) : Except Stop Nat :=
  if a + b ≤ Word.greatest then .ok (a + b) else .error (.overflow a b)

/-- The column in the middle of a gap, which is not to be behind its end. -/
def middle (gap : Grid.Columns) : Except Stop Nat := do
  let width ← difference gap.stop gap.start
  let column ← sum gap.start (width / 2)
  if column ≤ gap.stop then .ok column else .error (.beyond column gap)

/-- Leaves columns empty. -/
def skip (columns : Nat) (k : Canvas) : Except Stop (Grid.Columns × Canvas) := do
  let cursor := k.cursor.advance columns
  let gap ← range k.cursor.position cursor.position
  return (gap, { k with cursor })

def dot (c : Cluster) (k : Canvas) : Except Stop Canvas :=
  let (column, cursor) := k.cursor.take
  let e : Element := ⟨⟨k.elements.size⟩, ⟨column, k.path.length⟩, c.symbol, c.sign, k.path, c.span⟩
  if e.path.length = e.position.depth then .ok { k with cursor, elements := k.elements.push e }
  else .error (.uneven e)

def dots (c : Cluster) : Nat → Canvas → Except Stop Canvas
  | 0, k => .ok k
  | n + 1, k => do
    let k ← dot c k
    dots c n k

def cluster (s : Spacing) (c : Cluster) (k : Canvas) : Except Stop Canvas :=
  if c.magnitude = 0 then do
    let (_, k) ← skip s.zeroWidth k
    return k
  else dots c c.magnitude k

def join (s : Spacing) (join : Option (Located Join)) (rest : Row) (k : Canvas) : Except Stop Canvas :=
  if rest.isEmpty then .ok k
  else
    match join with
    | none => .ok k
    | some ⟨.space, _⟩ => do
      let (_, k) ← skip s.spaceGap k
      return k
    | some ⟨.plus, source⟩ => do
      let (gap, k) ← skip s.unionGap k
      let column ← middle gap
      return { k with unions := k.unions.push ⟨column, k.path.length, k.path.getLast?, source⟩ }

/-- Puts a boundary in a slot of its own behind all others. -/
def reserve (b : Boundary) (d : Draft) : Except Stop Draft :=
  if d.canvas.groups.any (·.id == b.id) then .error (.taken b.id)
  else .ok ⟨{ d.canvas with groups := d.canvas.groups.push b }, d.filled.push false⟩

/-- Puts a boundary in the slot that has been reserved for its group. -/
def fill (b : Boundary) (d : Draft) : Except Stop Draft :=
  match d.canvas.groups.findIdx? (·.id == b.id) with
  | some i => .ok ⟨{ d.canvas with groups := d.canvas.groups.setIfInBounds i b }, d.filled.setIfInBounds i true⟩
  | none => .error (.missing b.id)

/-- Opens a group, with the boundary of an empty one in its slot. -/
def openGroup (s : Spacing) (h : Head) (d : Draft) : Except Stop (Boundary × Draft) := do
  let k := d.canvas
  let id : GroupId := ⟨k.groups.size⟩
  let path := k.path ++ [id]
  let columns ← range k.cursor.position k.cursor.position
  let b : Boundary := {
    id
    parent := k.path.getLast?
    depth := path.length
    sign := h.sign.map Located.value
    magnitude := h.magnitude.map Located.value
    columns
    elements := ⟨k.elements.size, k.elements.size⟩
    source := h.span }
  let d ← reserve b { d with canvas := { k with path } }
  let (_, k) ← skip s.groupPadding d.canvas
  return (b, { d with canvas := k })

/-- Closes the group that has been opened with a boundary. -/
def closeGroup (s : Spacing) (b : Boundary) (d : Draft) : Except Stop Draft := do
  let (_, k) ← skip s.groupPadding d.canvas
  let columns ← range b.columns.start k.cursor.position
  let d ← fill { b with columns, elements := ⟨b.elements.start, k.elements.size⟩ } { d with canvas := k }
  return { d with canvas := { d.canvas with path := d.canvas.path.dropLast } }

def place (s : Settings) : Row → Draft → Except Stop Draft
  | .nil, d => .ok d
  | .cluster c join rest, d =>
    match refusal? s c.negativeSpan? with
    | some fault => .error (.refused fault)
    | none => do
      let k ← cluster s.spacing c d.canvas
      let k ← Guarded.join s.spacing join rest k
      place s rest { d with canvas := k }
  | .group h body join rest, d =>
    match refusal? s h.negativeSpan? with
    | some fault => .error (.refused fault)
    | none => do
      let (b, d) ← openGroup s.spacing h d
      let d ← place s body d
      let d ← closeGroup s.spacing b d
      let k ← Guarded.join s.spacing join rest d.canvas
      place s rest { d with canvas := k }

/-- The layout of a row, and which of the slots of its groups have been filled. -/
def ofRow (s : Settings) (row : Row) : Except Stop (Layout × Array Bool) :=
  if row.dotCount ≤ s.maxElements then do
    let d ← place s row ⟨.blank, #[]⟩
    return (d.canvas.layout, d.filled)
  else .error (.refused (.tooManyDots row.dotCount s.maxElements ((excess? s.maxElements 0 row).getD default)))

/-! ### Guards that stay silent -/

section Canvas
variable {k : Canvas} (word : k.cursor.position ≤ Word.greatest)

theorem range_eq {start stop : Nat} (order : start ≤ stop) : range start stop = .ok ⟨start, stop⟩ := by
  rw [range, Grid.Columns.ofBounds, if_pos order]
  rfl

example : range 3 1 = .error (.reversed ⟨3, 1⟩) := rfl

theorem middle_eq {gap : Grid.Columns} (order : gap.start ≤ gap.stop) (word : gap.stop ≤ Word.greatest) :
    middle gap = .ok gap.middle := by
  have bound := Grid.Columns.middle_le_stop order
  have width : difference gap.stop gap.start = .ok gap.width := if_pos order
  have column : sum gap.start (gap.width / 2) = .ok gap.middle := if_pos (Nat.le_trans bound word)
  rw [middle, width]
  dsimp only [bind, Except.bind]
  rw [column]
  exact if_pos bound

include word in
theorem skip_eq (columns : Nat) :
    skip columns k = .ok (⟨k.cursor.position, Word.add k.cursor.position columns⟩, k.skip columns) := by
  rw [skip, range_eq (Grid.Cursor.le_advance word columns)]
  rfl

theorem dot_eq (c : Cluster) : dot c k = .ok (k.dot c) :=
  if_pos rfl

theorem dots_eq (c : Cluster) (n : Nat) (k : Canvas) : dots c n k = .ok (k.dots c n) := by
  induction n generalizing k with
  | zero => rfl
  | succ n ih =>
    rw [dots, dot_eq]
    exact ih (k.dot c)

include word

theorem cluster_eq (s : Spacing) (c : Cluster) : cluster s c k = .ok (k.cluster s c) := by
  unfold cluster Canvas.cluster
  split
  · rw [skip_eq word]
    rfl
  · exact dots_eq c c.magnitude k

theorem join_eq (s : Spacing) (join : Option (Located Join)) (rest : Row) :
    Guarded.join s join rest k = .ok (k.join s join rest) := by
  unfold Guarded.join Canvas.join
  split
  · rfl
  · rcases join with _ | ⟨_ | _, source⟩
    · rfl
    · rw [skip_eq word]
      rfl
    · have order : k.cursor.position ≤ Word.add k.cursor.position s.unionGap := Word.le_add word
      dsimp only
      rw [skip_eq word]
      dsimp only [bind, Except.bind]
      rw [middle_eq order (Word.add_le_greatest _ _)]
      rfl

end Canvas

end Guarded

/-! ### Drafts -/

/-- On a sound draft each group has the number of its slot, and the next column is a word. -/
structure Draft.Sound (d : Draft) : Prop where
  word : d.canvas.cursor.position ≤ Word.greatest
  number : ∀ (i : Nat) b, d.canvas.groups[i]? = some b → b.id = ⟨i⟩
  slots : d.filled.size = d.canvas.groups.size

/-- The draft behind a row. -/
def Draft.behind (s : Spacing) (d : Draft) (row : Row) : Draft :=
  ⟨d.canvas.drawAll s row.events, d.filled ++ Array.replicate row.groupCount true⟩

section Draft
variable {s : Spacing} {d : Draft}

theorem Canvas.number_draw {k : Canvas} (number : ∀ (i : Nat) b, k.groups[i]? = some b → b.id = ⟨i⟩) (e : Event) :
    ∀ (i : Nat) b, (k.draw s e).groups[i]? = some b → b.id = ⟨i⟩ := by
  intro i b hb
  cases e with
  | dot | zero | space | plus => exact number i b hb
  | opening h =>
    simp only [draw, openGroup, Array.getElem?_push] at hb
    split at hb
    · next hi =>
      cases hb
      rw [hi]
    · exact number i b hb
  | closing =>
    simp only [draw, closeGroup] at hb
    split at hb
    · exact number i b hb
    · simp only [Array.getElem?_modify] at hb
      split at hb
      · obtain ⟨b', hb', rfl⟩ := Option.map_eq_some_iff.mp hb
        exact number i b' hb'
      · exact number i b hb

theorem Canvas.number_drawAll {k : Canvas} (number : ∀ (i : Nat) b, k.groups[i]? = some b → b.id = ⟨i⟩)
    (es : List Event) : ∀ (i : Nat) b, (k.drawAll s es).groups[i]? = some b → b.id = ⟨i⟩ := by
  induction es generalizing k with
  | nil => exact number
  | cons e es ih => exact ih (number_draw number e)

theorem Draft.Sound.blank : Draft.Sound ⟨.blank, #[]⟩ where
  word := Nat.zero_le _
  number _ _ h := by cases h
  slots := rfl

/-- What is drawn on a sound draft leaves it sound, with a mark for each slot that comes in. -/
theorem Draft.Sound.draw (sound : d.Sound) (es : List Event) {filled : Array Bool}
    (slots : filled.size = d.filled.size + Bracket.openings (Event.brackets es)) :
    Draft.Sound ⟨d.canvas.drawAll s es, filled⟩ where
  word := Canvas.word_drawAll s es sound.word
  number := Canvas.number_drawAll sound.number es
  slots := by rw [slots, Canvas.drawAll_groups_size, sound.slots]

theorem Draft.Sound.flat (sound : d.Sound) {es : List Event} (flat : Event.brackets es = []) :
    Draft.Sound ⟨d.canvas.drawAll s es, d.filled⟩ :=
  sound.draw es (by rw [flat]; rfl)

theorem Draft.Sound.openGroup (sound : d.Sound) (h : Head) :
    Draft.Sound ⟨d.canvas.openGroup s h, d.filled.push false⟩ :=
  sound.draw [.opening h] (Array.size_push false)

theorem Draft.Sound.behind (sound : d.Sound) (row : Row) : (d.behind s row).Sound :=
  sound.draw row.events (by rw [Array.size_append, Array.size_replicate, row.openings_events])

theorem Draft.Sound.closeGroup (sound : d.Sound) (i : Nat) :
    Draft.Sound ⟨d.canvas.closeGroup s, d.filled.setIfInBounds i true⟩ :=
  sound.draw [.closing] Array.size_setIfInBounds

theorem Draft.Sound.join (sound : d.Sound) (join : Option (Located Join)) (rest : Row) :
    Draft.Sound ⟨d.canvas.join s join rest, d.filled⟩ := by
  rw [← Canvas.drawAll_join]
  exact sound.flat (brackets_joinEvents join rest)

theorem Draft.Sound.cluster (sound : d.Sound) (c : Cluster) : Draft.Sound ⟨d.canvas.cluster s c, d.filled⟩ := by
  rw [← Canvas.drawAll_cluster]
  exact sound.flat (brackets_events c)

/-- Behind the body of a group the group is innermost, and its slot is as the opening has left it. -/
theorem Canvas.drawAll_body (k : Canvas) (h : Head) (body : Row) :
    ((k.openGroup s h).drawAll s body.events).path = k.path ++ [⟨k.groups.size⟩] ∧
      ((k.openGroup s h).drawAll s body.events).groups[k.groups.size]? =
        (k.openGroup s h).groups[k.groups.size]? := by
  have size : (k.openGroup s h).groups.size = k.groups.size + 1 := Array.size_push _
  obtain ⟨path, slots⟩ := Canvas.drawAll_balanced s (k.openGroup s h) (body.level_events 0)
  exact ⟨path, slots _ (size ▸ Nat.lt_succ_self _)⟩

end Draft

namespace Guarded

section Slots
variable {k : Canvas} {filled : Array Bool} {b : Boundary} (number : ∀ (i : Nat) b, k.groups[i]? = some b → b.id = ⟨i⟩)
include number

theorem reserve_eq (fresh : b.id = ⟨k.groups.size⟩) :
    reserve b ⟨k, filled⟩ = .ok ⟨{ k with groups := k.groups.push b }, filled.push false⟩ := by
  have free : k.groups.any (·.id == b.id) = false := by
    rw [Array.any_eq_false]
    intro i hi
    rw [number i _ (Array.getElem?_eq_getElem hi), fresh]
    simp
    omega
  rw [reserve, free]
  rfl

theorem fill_eq {i : Nat} (hi : i < k.groups.size) (own : b.id = ⟨i⟩) :
    fill b ⟨k, filled⟩ =
      .ok ⟨{ k with groups := k.groups.setIfInBounds i b }, filled.setIfInBounds i true⟩ := by
  have found : k.groups.findIdx? (·.id == b.id) = some i := by
    rw [Array.findIdx?_eq_some_iff_getElem]
    refine ⟨hi, by simp [number i _ (Array.getElem?_eq_getElem hi), own], fun j hj => ?_⟩
    rw [number j _ (Array.getElem?_eq_getElem (hj.trans hi)), own]
    simp
    omega
  rw [fill, found]

end Slots

/-- A boundary that is extended is the one that takes its place. -/
theorem modify_eq_setIfInBounds {α : Type} {xs : Array α} {i : Nat} {x : α} (hx : xs[i]? = some x) (f : α → α) :
    xs.modify i f = xs.setIfInBounds i (f x) := by
  apply Array.ext_getElem?
  intro j
  rw [Array.getElem?_modify, Array.getElem?_setIfInBounds]
  split
  · next hij =>
    subst hij
    rw [hx, if_pos (Array.getElem?_eq_some_iff.mp hx).1]
    rfl
  · rfl

section Group
variable {s : Spacing} {d : Draft} (sound : d.Sound)
include sound

theorem openGroup_eq (h : Head) :
    ∃ b, openGroup s h d = .ok (b, ⟨d.canvas.openGroup s h, d.filled.push false⟩) ∧
      (d.canvas.openGroup s h).groups[d.canvas.groups.size]? = some b ∧ b.id = ⟨d.canvas.groups.size⟩ ∧
      b.columns.start = d.canvas.cursor.position := by
  refine ⟨_, ?_, Array.getElem?_push_size, rfl, rfl⟩
  rw [openGroup, range_eq (Nat.le_refl _)]
  dsimp only [bind, Except.bind]
  rw [reserve_eq (by exact sound.number) rfl]
  dsimp only
  rw [skip_eq (by exact sound.word)]
  simp only [List.length_append, List.length_singleton]
  rfl

theorem closeGroup_eq {b : Boundary} {outer : List GroupId} (path : d.canvas.path = outer ++ [b.id])
    (slot : d.canvas.groups[b.id.index]? = some b) (start : b.columns.start ≤ d.canvas.cursor.position) :
    closeGroup s b d = .ok ⟨d.canvas.closeGroup s, d.filled.setIfInBounds b.id.index true⟩ := by
  have hi : b.id.index < d.canvas.groups.size := (Array.getElem?_eq_some_iff.mp slot).1
  have last : d.canvas.path.getLast? = some b.id := by rw [path, List.getLast?_concat]
  have order : b.columns.start ≤ (d.canvas.skip s.groupPadding).cursor.position :=
    Nat.le_trans start (Word.le_add sound.word)
  rw [closeGroup, skip_eq sound.word]
  dsimp only [bind, Except.bind]
  rw [range_eq order]
  dsimp only
  rw [fill_eq (by exact sound.number) (by exact hi) rfl]
  simp only [Canvas.closeGroup, last, modify_eq_setIfInBounds slot]
  rfl

end Group

/-! ### Placing with guards is placing -/

/-- The slot of a group is filled behind those of the groups in its body. -/
theorem filled_group (filled : Array Bool) (inner : Nat) :
    (filled.push false ++ Array.replicate inner true).setIfInBounds filled.size true =
      filled ++ Array.replicate (inner + 1) true := by
  apply Array.ext'
  simp [List.replicate_succ]

/-- The draft on which the body of a group is placed. -/
def inside (s : Spacing) (d : Draft) (h : Head) (body : Row) : Draft :=
  Draft.behind s ⟨d.canvas.openGroup s h, d.filled.push false⟩ body

theorem behind_group {s : Spacing} {d : Draft} (slots : d.filled.size = d.canvas.groups.size) (h : Head) (body : Row)
    (join : Option (Located Join)) (rest : Row) :
    d.behind s (.group h body join rest) =
      Draft.behind s ⟨((inside s d h body).canvas.closeGroup s).join s join rest,
        (inside s d h body).filled.setIfInBounds d.canvas.groups.size true⟩ rest := by
  rw [← slots, inside, Draft.behind, Draft.behind, Draft.behind, filled_group, Row.groupCount, Row.events,
    Canvas.drawAll_cons, Canvas.drawAll_append, Canvas.drawAll_cons, Canvas.drawAll_append, Canvas.drawAll_join,
    Array.append_assoc, Array.replicate_append_replicate]
  rfl

theorem behind_cluster (s : Spacing) (d : Draft) (c : Cluster) (join : Option (Located Join)) (rest : Row) :
    d.behind s (.cluster c join rest) =
      Draft.behind s ⟨(d.canvas.cluster s c).join s join rest, d.filled⟩ rest := by
  rw [Draft.behind, Draft.behind, Row.groupCount, Row.events, Canvas.drawAll_append, Canvas.drawAll_append,
    Canvas.drawAll_cluster, Canvas.drawAll_join]

/-- On a sound draft a row is drawn, or its first refusal is reported, and no guard stops. -/
theorem place_eq (s : Settings) (row : Row) {d : Draft} (sound : d.Sound) :
    place s row d =
      match firstRefusal? s row with
      | some fault => .error (.refused fault)
      | none => .ok (d.behind s.spacing row) := by
  induction row generalizing d with
  | nil => exact congrArg Except.ok (by simp [Draft.behind, Row.events, Canvas.drawAll, Row.groupCount])
  | cluster c join rest ih =>
    rw [place, firstRefusal?, behind_cluster]
    cases refusal? s c.negativeSpan? with
    | some fault => rfl
    | none =>
      have dotted := sound.cluster (s := s.spacing) c
      dsimp only [bind, Except.bind]
      rw [cluster_eq sound.word]
      dsimp only
      rw [join_eq dotted.word]
      exact ih (dotted.join join rest)
  | group h body join rest ihb ih =>
    rw [place, firstRefusal?, behind_group sound.slots]
    cases refusal? s h.negativeSpan? with
    | some fault => rfl
    | none =>
      obtain ⟨b, hopen, slot, hid, start⟩ := openGroup_eq (s := s.spacing) sound h
      obtain ⟨path, kept⟩ := d.canvas.drawAll_body (s := s.spacing) h body
      have opened := sound.openGroup (s := s.spacing) h
      have filled : (inside s.spacing d h body).Sound := opened.behind body
      have closed := filled.closeGroup (s := s.spacing) d.canvas.groups.size
      dsimp only [bind, Except.bind]
      rw [hopen, Option.none_or]
      dsimp only
      rw [ihb opened]
      cases firstRefusal? s body with
      | some fault => rfl
      | none =>
        have order : b.columns.start ≤ (inside s.spacing d h body).canvas.cursor.position :=
          start ▸ Nat.le_trans (Word.le_add sound.word) (Canvas.le_drawAll_position s.spacing body.events opened.word)
        have hclose := closeGroup_eq (s := s.spacing) filled (hid ▸ path) (hid ▸ kept.trans slot) order
        rw [hid] at hclose
        dsimp only
        rw [Option.none_or, ← inside, hclose]
        dsimp only
        rw [join_eq closed.word]
        exact ih (closed.join join rest)

/-- With guards a row comes to the same layout or the same refusal as without, and all slots are filled. -/
theorem ofRow_eq (s : Settings) (row : Row) :
    Guarded.ofRow s row =
      match Layout.ofRow s row with
      | .ok l => .ok (l, Array.replicate l.groups.size true)
      | .error fault => .error (.refused fault) := by
  unfold Guarded.ofRow Layout.ofRow
  split
  · rw [place_eq s row Draft.Sound.blank, Layout.place_eq]
    cases firstRefusal? s row with
    | some fault => rfl
    | none =>
      have size : (drawn s.spacing row.events).groups.size = row.groupCount := by
        rw [drawn_groups_size, row.openings_events]
      show Except.ok ((drawn s.spacing row.events).layout, #[] ++ Array.replicate row.groupCount true) =
        Except.ok (_, Array.replicate (drawn s.spacing row.events).groups.size true)
      rw [size, Array.empty_append]
      rfl
  · rfl

end Guarded

end Dotwork.Layout
