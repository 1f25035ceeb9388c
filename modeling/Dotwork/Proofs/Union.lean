import Dotwork.Proofs.Agreement
import Dotwork.Proofs.Canonical
import Dotwork.Proofs.Places
import Dotwork.Proofs.Stretches

/-!
# Lines tied by a plus

Two lines with a plus between them are read as the terms of the first, tied by the plus to those of the second. The
layout of the whole is the layout of the first line, the marker of the plus, and the layout of the second line with
everything moved behind the first, as long as the columns of both can be counted.
-/

namespace Dotwork

/-! ### One row behind another -/

def Term.events : Term → List Event
  | .cluster c => c.events
  | .group h body => .opening h :: (body.events ++ [.closing])

namespace Row

/-- A row with another one behind it, tied to its last term. -/
def append (join : Option (Located Join)) : Row → Row → Row
  | .nil, next => next
  | .cluster c join' rest, next => .cluster c (if rest.isEmpty then join else join') (append join rest next)
  | .group h body join' rest, next => .group h body (if rest.isEmpty then join else join') (append join rest next)

theorem events_cons (e : Entry) (rest : Row) :
    (cons e rest).events = e.term.events ++ joinEvents e.join rest ++ rest.events := by
  obtain ⟨_ | _, _⟩ := e <;> simp [cons, events, Term.events]

/-- A row with terms is one term, or one in front of a row with terms. -/
theorem nonempty_induction {P : (row : Row) → row.isEmpty = false → Prop}
    (single : ∀ e, P (cons e .nil) (isEmpty_cons e .nil))
    (step : ∀ e rest (more : rest.isEmpty = false), P rest more → P (cons e rest) (isEmpty_cons e rest)) (row : Row)
    (more : row.isEmpty = false) : P row more := by
  have either : ∀ e rest, (∀ more : rest.isEmpty = false, P rest more) → P (cons e rest) (isEmpty_cons e rest) := by
    intro e rest ih
    cases rest with
    | nil => exact single e
    | cluster | group => exact step e _ rfl (ih rfl)
  induction row with
  | nil => cases more
  | cluster c join rest ih => exact either ⟨.cluster c, join⟩ rest ih
  | group h body join rest _ ih => exact either ⟨.group h body, join⟩ rest ih

section Append
variable (join : Option (Located Join)) (next : Row)

theorem append_single (e : Entry) : (cons e .nil).append join next = cons ⟨e.term, join⟩ next := by
  obtain ⟨_ | _, _⟩ := e <;> rfl

theorem append_cons (e : Entry) {rest : Row} (more : rest.isEmpty = false) :
    (cons e rest).append join next = cons e (rest.append join next) := by
  obtain ⟨_ | _, _⟩ := e <;> simp [cons, append, more]

theorem isEmpty_append {row : Row} (more : row.isEmpty = false) : (row.append join next).isEmpty = false := by
  cases row with
  | nil => cases more
  | cluster | group => rfl

theorem toList_append {row : Row} (more : row.isEmpty = false) :
    ∃ front last, row.toList = front ++ [last] ∧
      (row.append join next).toList = front ++ ⟨last.term, join⟩ :: next.toList := by
  induction row, more using nonempty_induction with
  | single e => exact ⟨[], e, by rw [toList_cons]; rfl, by rw [append_single, toList_cons]; rfl⟩
  | step e rest more ih =>
    obtain ⟨front, last, hrow, happend⟩ := ih
    refine ⟨e :: front, last, ?_, ?_⟩
    · rw [toList_cons, hrow, List.cons_append]
    · rw [append_cons join next e more, toList_cons, happend, List.cons_append]

theorem events_append {row : Row} (more : row.isEmpty = false) :
    (row.append join next).events = row.events ++ joinEvents join next ++ next.events := by
  induction row, more using nonempty_induction with
  | single e =>
    have last : joinEvents e.join .nil = [] := rfl
    simp [append_single, events_cons, last, events]
  | step e rest more ih =>
    have inner : joinEvents e.join (rest.append join next) = joinEvents e.join rest := by
      simp only [joinEvents, isEmpty_append join next more, more]
    simp only [append_cons join next e more, events_cons, inner, ih, List.append_assoc]

theorem nesting_append (row : Row) : (row.append join next).nesting = max row.nesting next.nesting := by
  induction row with
  | nil => exact (Nat.zero_max _).symm
  | cluster c join' rest ih => exact ih
  | group h body join' rest _ ih => rw [append, nesting, nesting, ih, Nat.max_assoc]

theorem dotCount_le (row : Row) : row.dotCount ≤ Word.greatest := by
  cases row with
  | nil => exact Nat.zero_le _
  | cluster | group => exact Word.add_le_greatest _ _

theorem dotCount_append (row : Row) : (row.append join next).dotCount = Word.add row.dotCount next.dotCount := by
  induction row with
  | nil =>
    have word := next.dotCount_le
    rw [append, dotCount, Word.add_eq 0 _ (by omega), Nat.zero_add]
  | cluster c join' rest ih => rw [append, dotCount, ih, dotCount, Word.add_assoc]
  | group h body join' rest _ ih => rw [append, dotCount, ih, dotCount, Word.add_assoc]

end Append

theorem Terms.append {ws next gap : List (Located Token)} {t : Located Token} {row rest : Row}
    {join : Option (Located Join)} (h : Terms ws row) (more : row.isEmpty = false) (terms : Terms (t :: next) rest)
    (boundary : ∀ closed, Boundary closed t.value gap join) :
    Terms (ws ++ (gap ++ t :: next)) (row.append join rest) := by
  induction h with
  | nil => cases more
  | @cluster lead gap' next' count join' rest' x s counts tie terms' ih =>
    cases tie with
    | last =>
      obtain rfl := terms'.eq_nil_iff.mp rfl
      simpa [Row.append, isEmpty] using Terms.cluster x s counts (.next (boundary false)) terms
    | @next gap' join' t' next' boundary' =>
      have more' := terms'.begins.1
      simpa [Row.append, more'] using Terms.cluster x s counts (.next boundary') (ih more')
  | @group lead a inner b gap' next' sign magnitude body join' rest' o c leads before content behind tie terms' _ ih =>
    cases tie with
    | last =>
      obtain rfl := terms'.eq_nil_iff.mp rfl
      simpa [Row.append, isEmpty] using Terms.group o c leads before content behind (.next (boundary true)) terms
    | @next gap' join' t' next' boundary' =>
      have more' := terms'.begins.1
      simpa [Row.append, more'] using Terms.group o c leads before content behind (.next boundary') (ih more')

end Row

/-! ### One layout behind another -/

namespace Layout

/-- How far the parts of a layout are moved: the numbers of its elements and of its groups, its columns, and the bytes
    that its parts come from. -/
structure Offset where
  elements : Nat
  groups : Nat
  columns : Nat
  bytes : Nat

section Shift
variable (o : Offset)

def GroupId.shift (id : GroupId) : GroupId :=
  ⟨o.groups + id.index⟩

def Element.shift (e : Element) : Element :=
  { e with
    id := ⟨o.elements + e.id.index⟩
    position := ⟨o.columns + e.position.column, e.position.depth⟩
    path := e.path.map (·.shift o)
    source := e.source.relocate (o.bytes + ·) }

def Boundary.shift (b : Boundary) : Boundary :=
  { b with
    id := b.id.shift o
    parent := b.parent.map (·.shift o)
    columns := ⟨o.columns + b.columns.start, o.columns + b.columns.stop⟩
    elements := ⟨o.elements + b.elements.start, o.elements + b.elements.stop⟩
    source := b.source.relocate (o.bytes + ·) }

def Marker.shift (m : Marker) : Marker :=
  { m with
    column := o.columns + m.column
    group := m.group.map (·.shift o)
    source := m.source.relocate (o.bytes + ·) }

end Shift

namespace Canvas

/-- A canvas with all that is on another one moved behind what is on it. -/
def beside (base : Canvas) (o : Offset) (k : Canvas) : Canvas where
  cursor := ⟨o.columns + k.cursor.position⟩
  elements := base.elements ++ k.elements.map (·.shift o)
  groups := base.groups ++ k.groups.map (·.shift o)
  unions := base.unions ++ k.unions.map (·.shift o)
  path := k.path.map (·.shift o)

theorem modify_append {α : Type} (xs ys : Array α) (i : Nat) (f : α → α) :
    (xs ++ ys).modify (xs.size + i) f = xs ++ ys.modify i f := by
  apply Array.ext_getElem?
  intro j
  rw [Array.getElem?_modify, Array.getElem?_append, Array.getElem?_append, Array.getElem?_modify]
  rcases Nat.lt_or_ge j xs.size with hj | hj
  · have hi : xs.size + i ≠ j := by omega
    simp only [hi, hj, ↓reduceIte]
  · have hi : xs.size + i = j ↔ i = j - xs.size := by omega
    simp only [hi, Nat.not_lt_of_ge hj, ↓reduceIte]

section Beside
variable {s : Spacing} {base k : Canvas} {o : Offset} (helements : o.elements = base.elements.size)
  (hgroups : o.groups = base.groups.size)
include helements hgroups

/-- What is drawn behind another canvas is drawn as by itself, and moved, as long as its columns can be counted. -/
theorem draw_beside (e : Event) (room : o.columns + (k.draw s e).cursor.position ≤ Word.greatest) :
    (base.beside o k).draw s (e.relocate (o.bytes + ·)) = base.beside o (k.draw s e) := by
  have advance : ∀ n, o.columns + Word.add k.cursor.position n ≤ Word.greatest →
      Word.add (o.columns + k.cursor.position) n = o.columns + Word.add k.cursor.position n := fun n hn => by
    unfold Word.add at hn ⊢
    omega
  rw [draw_position] at room
  have moved := advance _ room
  cases e with
  | dot c =>
    simp only [Event.width] at moved
    simp [draw, dot, beside, Event.relocate, Element.shift, Cluster.relocate, Cluster.sign, Grid.Cursor.take,
      Grid.Cursor.advance, helements, moved]
  | zero | space =>
    simp only [Event.width] at moved
    simp [draw, skip, beside, Event.relocate, Grid.Cursor.skip, Grid.Cursor.advance, moved]
  | plus source =>
    simp only [Event.width] at moved
    simp [draw, union, beside, Event.relocate, Marker.shift, Grid.Cursor.skip, Grid.Cursor.advance, Grid.Columns.middle,
      Grid.Columns.width, moved, Nat.add_sub_add_left, Nat.add_assoc]
  | opening h =>
    simp only [Event.width] at moved
    simp [draw, openGroup, skip, beside, Event.relocate, Boundary.shift, GroupId.shift, Head.relocate, Grid.Cursor.skip,
      Grid.Cursor.advance, Function.comp_def, helements, hgroups, moved]
  | closing =>
    simp only [Event.width] at moved
    have hlast : (base.beside o k).path.getLast? = k.path.getLast?.map (·.shift o) := List.getLast?_map
    simp only [draw, closeGroup, Event.relocate, hlast]
    cases k.path.getLast? with
    | none => simp [beside, Grid.Cursor.advance, moved]
    | some id =>
      have extended : ∀ column element (b : Boundary),
          (extend column element b).shift o = extend (o.columns + column) (o.elements + element) (b.shift o) :=
        fun _ _ _ => rfl
      simp only [Option.map_some, beside, GroupId.shift, hgroups, modify_append, Grid.Cursor.advance, moved,
        Array.size_append, Array.size_map, ← helements, map_modify (extended _ _), List.map_dropLast]

theorem drawAll_beside (es : List Event) (hk : k.cursor.position ≤ Word.greatest)
    (room : o.columns + (k.drawAll s es).cursor.position ≤ Word.greatest) :
    (base.beside o k).drawAll s (es.map (Event.relocate (o.bytes + ·))) = base.beside o (k.drawAll s es) := by
  induction es generalizing k with
  | nil => rfl
  | cons e es ih =>
    have hnext : (k.draw s e).cursor.position ≤ Word.greatest := by
      rw [draw_position]
      exact Word.add_le_greatest _ _
    have first : o.columns + (k.draw s e).cursor.position ≤ Word.greatest :=
      Nat.le_trans (Nat.add_le_add_left (le_drawAll_position s es hnext) _) room
    rw [List.map_cons, drawAll_cons, draw_beside helements hgroups e first, ih hnext room, drawAll_cons]

end Beside

end Canvas

/-- How far a layout is moved to come behind `a` and a plus. -/
def behind (s : Spacing) (bytes : Nat) (a : Layout) : Offset :=
  ⟨a.elements.size, a.groups.size, a.width + s.unionGap, bytes⟩

/-- The layout `l` is `a`, the marker of a plus, and `b` moved behind the two. -/
structure Joined (s : Spacing) (bytes : Nat) (source : Span) (a b l : Layout) : Prop where
  width : l.width = a.width + s.unionGap + b.width
  elements : l.elements = a.elements ++ b.elements.map (·.shift (behind s bytes a))
  groups : l.groups = a.groups ++ b.groups.map (·.shift (behind s bytes a))
  unions : l.unions =
    a.unions ++ #[⟨a.width + s.unionGap / 2, 0, none, source⟩] ++ b.unions.map (·.shift (behind s bytes a))

theorem joined_of_drawn {s : Spacing} {front es : List Event} (bytes : Nat) (source : Span)
    (closed : Event.path front = [])
    (room : (drawn s front).layout.width + s.unionGap + (drawn s es).layout.width ≤ Word.greatest) :
    Joined s bytes source (drawn s front).layout (drawn s es).layout
      (drawn s (front ++ .plus source :: es.map (Event.relocate (bytes + ·)))).layout := by
  obtain ⟨k, hk⟩ : ∃ k, k = drawn s front := ⟨_, rfl⟩
  rw [← hk] at room ⊢
  have hpath : k.path = [] := by rw [hk, drawn_path, closed]
  have hgap : Word.add k.cursor.position s.unionGap = k.cursor.position + s.unionGap :=
    Word.add_eq _ _ (Nat.le_trans (Nat.le_add_right _ _) room)
  -- With nothing drawn behind it yet, the canvas of the plus has a blank one beside it.
  have start : (k.union s source).beside (behind s bytes k.layout) .blank = k.union s source := by
    simp [Canvas.beside, Canvas.blank, Canvas.union, Grid.Cursor.start, Grid.Cursor.skip, Grid.Cursor.advance, behind,
      Canvas.layout, hgap, hpath]
  have whole : drawn s (front ++ .plus source :: es.map (Event.relocate (bytes + ·))) =
      (k.union s source).beside (behind s bytes k.layout) (drawn s es) := by
    rw [drawn_append, Canvas.drawAll_cons, ← hk]
    exact (congrArg (Canvas.drawAll s · _) start.symm).trans
      (Canvas.drawAll_beside rfl rfl es (Nat.zero_le _) room)
  rw [whole]
  constructor
  case width | elements | groups => rfl
  case unions =>
    simp [Canvas.layout, Canvas.beside, Canvas.union, Grid.Cursor.skip, Grid.Cursor.advance, Grid.Columns.middle,
      Grid.Columns.width, hgap, hpath]

theorem firstRefusal?_append (s : Settings) (join : Option (Located Join)) (row next : Row) :
    firstRefusal? s (row.append join next) = (firstRefusal? s row).or (firstRefusal? s next) := by
  induction row with
  | nil => rfl
  | cluster c join' rest ih => rw [Row.append, firstRefusal?, ih, firstRefusal?, Option.or_assoc]
  | group h body join' rest _ ih =>
    rw [Row.append, firstRefusal?, ih, firstRefusal?, Option.or_assoc, Option.or_assoc]

theorem exists_of_ofRow_append {s : Settings} {join : Option (Located Join)} {row next : Row} {l : Layout}
    (h : ofRow s (row.append join next) = .ok l) :
    ofRow s row = .ok (drawn s.spacing row.events).layout ∧
      ofRow s next = .ok (drawn s.spacing next.events).layout := by
  obtain ⟨count, accepted, -⟩ := ofRow_eq_ok_iff.mp h
  rw [Row.dotCount_append] at count
  rw [firstRefusal?_append, Option.or_eq_none_iff] at accepted
  have hrow : row.dotCount ≤ s.maxElements := Nat.le_trans (Word.le_add row.dotCount_le) count
  have hnext : next.dotCount ≤ s.maxElements := by
    have := next.dotCount_le
    unfold Word.add at count
    omega
  exact ⟨ofRow_eq_ok_iff.mpr ⟨hrow, accepted.1, rfl⟩, ofRow_eq_ok_iff.mpr ⟨hnext, accepted.2, rfl⟩⟩

end Layout

/-! ### Lines -/

namespace Row
variable {limit : Nat} {a b : String} {ra rb : Row}

/-- Two lines that have terms are read with a plus between them as one row behind the other. -/
theorem exists_ofLine_append (ha : ofLine limit a = .ok ra) (hb : ofLine limit b = .ok rb) (na : ra.isEmpty = false)
    (nb : rb.isEmpty = false) :
    ∃ source, source.start ≤ a.utf8ByteSize ∧ a.utf8ByteSize + 1 ≤ source.stop ∧
      ofLine limit (a ++ "+" ++ b) =
        .ok (ra.append (some ⟨.plus, source⟩) (rb.relocate (a.utf8ByteSize + 1 + ·))) := by
  obtain ⟨_, readsA, ⟨a₁, wa, a₂, rfl, ha₁, termsA, ha₂⟩, fitsA⟩ := exists_of_ofLine ha
  obtain ⟨_, readsB, ⟨b₁, wb, b₂, rfl, hb₁, termsB, hb₂⟩, fitsB⟩ := exists_of_ofLine hb
  obtain ⟨n, hn⟩ : ∃ n, n = a.utf8ByteSize := ⟨_, rfl⟩
  rw [← hn]
  have mono : Monotone (n + 1 + ·) := fun _ _ h => Nat.add_le_add_left h _
  obtain ⟨source, hsource⟩ : ∃ source, source = cover ⟨n, n + 1⟩ (a₂ ++ b₁.map (·.relocate (n + 1 + ·))) := ⟨_, rfl⟩
  have covers := cover_covers ⟨n, n + 1⟩ (a₂ ++ b₁.map (·.relocate (n + 1 + ·)))
  rw [← hsource] at covers
  refine ⟨source, covers.1, covers.2, @ofLine_of_derives _ _ _ (a₁ ++ wa ++ a₂ ++ ⟨.plus, ⟨n, n + 1⟩⟩ ::
    (b₁ ++ wb ++ b₂).map (·.relocate (n + 1 + ·))) ?_ ?_ ?_⟩
  · have hline : (a ++ "+" ++ b).toList = a.toList ++ '+' :: b.toList := by simp
    rw [hline, Lexeme.cut_append_cons _ _ (by decide) (by decide), Lexeme.place_append, Lexeme.bytes,
      Lexeme.cut_chars, String.ofList_toList, Nat.zero_add, ← hn]
    have moved := Token.readFrom_relocate (g := (n + 1 + ·)) (fun k => by omega) readsB
    exact List.rel_append readsA (.cons ⟨rfl, rfl⟩ moved)
  · -- The plus and the blanks on either side of it are the boundary between the two rows.
    have moved := termsB.relocate mono
    cases hw : wb.map (·.relocate (n + 1 + ·)) with
    | nil =>
      rw [hw] at moved
      have hempty := isEmpty_relocate (n + 1 + ·) rb
      rw [moved.eq_nil_iff.mp rfl, nb] at hempty
      cases hempty
    | cons t next =>
      rw [hw] at moved
      have tied := Terms.append termsA na moved fun closed =>
        hsource ▸ Boundary.plus ⟨n, n + 1⟩ ha₂ (hb₁.relocate (n + 1 + ·))
      refine ⟨a₁, _, b₂.map (·.relocate (n + 1 + ·)), ?_, ha₁, tied, hb₂.relocate (n + 1 + ·)⟩
      simp [← hw]
  · rw [nesting_append, nesting_relocate]
    exact Nat.max_le.mpr ⟨fitsA, fitsB⟩

end Row

/-- What the line of `a`, a plus and `b` is read as, and how it is laid out. -/
structure United (s : Settings) (a b : String) (ra rb row : Row) (source : Span) : Prop where
  read : Row.read s (a ++ "+" ++ b) = .ok row
  plus : source.start ≤ a.utf8ByteSize ∧ a.utf8ByteSize + 1 ≤ source.stop
  entries : ∃ front last, ra.toList = front ++ [last] ∧
    row.toList = front ++ ⟨last.term, some ⟨.plus, source⟩⟩ :: rb.toList.map (Entry.relocate (a.utf8ByteSize + 1 + ·))
  layout : ∀ l, Layout.ofLine s (a ++ "+" ++ b) = .ok l →
    ∃ la lb, Layout.ofLine s a = .ok la ∧ Layout.ofLine s b = .ok lb ∧
      (la.width + s.spacing.unionGap + lb.width ≤ Word.greatest →
        Layout.Joined s.spacing (a.utf8ByteSize + 1) source la lb l)

/-- Two lines with a plus between them say what each of them says. -/
theorem exists_united {s : Settings} {a b : String} {ra rb : Row} (ha : Row.read s a = .ok ra)
    (hb : Row.read s b = .ok rb) (na : ra.isEmpty = false) (nb : rb.isEmpty = false) :
    ∃ row source, United s a b ra rb row source := by
  obtain ⟨source, hstart, hstop, hline⟩ :=
    Row.exists_ofLine_append (Row.read_eq_ok_iff.mp ha) (Row.read_eq_ok_iff.mp hb) na nb
  have hread := Row.read_eq_ok_iff.mpr hline
  refine ⟨_, source, hread, ⟨hstart, hstop⟩, ?_, ?_⟩
  · obtain ⟨front, last, hrow, happend⟩ :=
      Row.toList_append (some ⟨.plus, source⟩) (rb.relocate (a.utf8ByteSize + 1 + ·)) na
    exact ⟨front, last, hrow, by rw [happend, Row.toList_relocate]⟩
  · intro l hl
    have hrow := (Layout.ofLine_eq_ok_iff hread).mp hl
    obtain ⟨hla, hmoved⟩ := Layout.exists_of_ofRow_append hrow
    -- The row of `b` has a layout where the moved one has, for whether there is one does not depend on the places.
    obtain ⟨lb, hlb⟩ : ∃ lb, Layout.ofRow s rb = .ok lb := by
      rcases Layout.ofRow_of_alike s (rb.alike_relocate (a.utf8ByteSize + 1 + ·)) with ⟨lb, -, hlb, -⟩ | ⟨-, f, -, hf, -⟩
      · exact ⟨lb, hlb⟩
      · rw [hmoved] at hf
        cases hf
    refine ⟨_, lb, (Layout.ofLine_eq_ok_iff ha).mpr hla, (Layout.ofLine_eq_ok_iff hb).mpr hlb, fun room => ?_⟩
    obtain rfl := Layout.eq_layout_of_ofRow hlb
    obtain rfl := Layout.eq_layout_of_ofRow hrow
    have more : (rb.relocate (a.utf8ByteSize + 1 + ·)).isEmpty = false := by rw [Row.isEmpty_relocate, nb]
    have hevents : (ra.append (some ⟨.plus, source⟩) (rb.relocate (a.utf8ByteSize + 1 + ·))).events =
        ra.events ++ .plus source :: rb.events.map (Event.relocate (a.utf8ByteSize + 1 + ·)) := by
      rw [Row.events_append _ _ na, Row.joinEvents, more, Row.events_relocate]
      simp
    rw [hevents]
    exact Layout.joined_of_drawn _ source (Event.path_append_of_balanced [] (ra.level_events 0)) room

/-- A group and minus dots whose sign is not the plus, with a blank on either side of the plus. -/
theorem united_of_leading_minus :
    let y : Symbol := ⟨'y', by decide +kernel⟩
    let ra : Row := .group ⟨none, some ⟨2, ⟨0, 1⟩⟩, ⟨1, 5⟩, ⟨0, 5⟩⟩ (.cluster ⟨1, y, ⟨2, 4⟩⟩ none .nil) none .nil
    let rb : Row := .cluster ⟨-3, y, ⟨1, 4⟩⟩ none .nil
    Row.read {} "2(1y) " = .ok ra ∧ Row.read {} "\t-3y" = .ok rb ∧
      (∃ row source, United {} "2(1y) " "\t-3y" ra rb row source) ∧
      ((Layout.ofLine {} "2(1y) +\t-3y").toOption.map (·.width)) = some 9 := by
  intro y ra rb
  have ha : Row.read {} "2(1y) " = .ok ra := by decide +kernel
  have hb : Row.read {} "\t-3y" = .ok rb := by decide +kernel
  exact ⟨ha, hb, exists_united ha hb rfl rfl, by decide +kernel⟩

end Dotwork
