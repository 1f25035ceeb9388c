import Dotwork.Layout.Placement
import Dotwork.Proofs.Context
import Mathlib.Algebra.GroupWithZero.Nat

/-!
# Drawing a row

A row is drawn event by event: its dots, its gaps, and the two sides of its groups, in the order of the text.
Placing a row does just that, unless the settings refuse something in it, so that a layout is what the events of
its row make, each on the canvas that those in front of it have left.
-/

namespace Dotwork

/-! ### Events -/

/-- What is drawn in one go. -/
inductive Event
  | dot (c : Cluster)
  | zero
  | space
  | plus (source : Span)
  | opening (h : Head)
  | closing
deriving DecidableEq

namespace Event

/-- The columns that an event takes up. -/
def width (s : Spacing) : Event → Nat
  | .dot _ => 1
  | .zero => s.zeroWidth
  | .space => s.spaceGap
  | .plus _ => s.unionGap
  | .opening _ | .closing => s.groupPadding

def isDot : Event → Bool
  | .dot _ => true
  | .zero | .space | .plus _ | .opening _ | .closing => false

def isPlus : Event → Bool
  | .plus _ => true
  | .dot _ | .zero | .space | .opening _ | .closing => false

/-- The side of a group that an event is. -/
def bracket? : Event → Option Bracket
  | .opening _ => some .opening
  | .closing => some .closing
  | .dot _ | .zero | .space | .plus _ => none

def brackets (es : List Event) : List Bracket :=
  es.filterMap bracket?

/-- The groups that are open behind some events, outermost first. -/
def path (es : List Event) : List Layout.GroupId :=
  (Bracket.opened (brackets es)).map Layout.GroupId.mk

/-- The column behind some events: the sum of their widths, or the greatest word where the sum is beyond it. -/
def extent (s : Spacing) (es : List Event) : Nat :=
  min (es.map (width s)).sum Word.greatest

@[simp] theorem brackets_nil : brackets [] = [] :=
  rfl

@[simp] theorem brackets_append (es fs : List Event) : brackets (es ++ fs) = brackets es ++ brackets fs :=
  List.filterMap_append

@[simp] theorem brackets_opening (h : Head) (es : List Event) :
    brackets (.opening h :: es) = .opening :: brackets es :=
  rfl

@[simp] theorem brackets_closing (es : List Event) : brackets (.closing :: es) = .closing :: brackets es :=
  rfl

end Event

/-- The dots of a cluster, or its place where it has none. -/
def Cluster.events (c : Cluster) : List Event :=
  if c.magnitude = 0 then [.zero] else List.replicate c.magnitude (.dot c)

namespace Row

/-- What the join in front of the rest of a row shows. -/
def joinEvents (join : Option (Located Join)) (rest : Row) : List Event :=
  if rest.isEmpty then []
  else
    match join with
    | none => []
    | some ⟨.space, _⟩ => [.space]
    | some ⟨.plus, source⟩ => [.plus source]

/-- What a row shows, in the order of the text. -/
def events : Row → List Event
  | .nil => []
  | .cluster c join rest => c.events ++ joinEvents join rest ++ rest.events
  | .group h body join rest => .opening h :: (body.events ++ .closing :: (joinEvents join rest ++ rest.events))

end Row

@[simp] theorem brackets_events (c : Cluster) : Event.brackets c.events = [] := by
  unfold Cluster.events
  split
  · rfl
  · exact List.filterMap_eq_nil_iff.mpr fun e he => by rw [List.eq_of_mem_replicate he]; rfl

@[simp] theorem brackets_joinEvents (join : Option (Located Join)) (rest : Row) :
    Event.brackets (Row.joinEvents join rest) = [] := by
  unfold Row.joinEvents
  split
  · rfl
  · rcases join with _ | ⟨_ | _, _⟩ <;> rfl

/-- A cluster makes what each of its dots makes in front of the cluster, where no more than the open groups counts. -/
theorem Cluster.scan_events {β : Type} {f : List Event → Event → List β} (c : Cluster) (zero : ∀ es, f es .zero = [])
    (dot : ∀ es fs, Event.brackets es = Event.brackets fs → f es (.dot c) = f fs (.dot c)) (before : List Event) :
    scan f before c.events = (List.replicate c.magnitude (f before (.dot c))).flatten := by
  have dots : ∀ n before, scan f before (List.replicate n (.dot c)) = (List.replicate n (f before (.dot c))).flatten := by
    intro n
    induction n with
    | zero => exact fun _ => rfl
    | succ n ih =>
      intro before
      have same : f (before ++ [.dot c]) (.dot c) = f before (.dot c) :=
        dot _ _ (by rw [Event.brackets_append]; exact List.append_nil _)
      rw [List.replicate_succ, scan, ih, same, List.replicate_succ, List.flatten_cons]
  unfold Cluster.events
  split
  · next h => simp [h, scan, zero]
  · exact dots c.magnitude before

/-- The groups of a row are closed where they are opened, whatever is open around the row. -/
theorem Row.level_events (row : Row) (depth : Nat) :
    Bracket.level depth (Event.brackets row.events) = some depth := by
  induction row generalizing depth with
  | nil => rfl
  | cluster c join rest ih =>
    simp only [Row.events, Event.brackets_append, brackets_events, brackets_joinEvents, List.nil_append]
    exact ih depth
  | group h body join rest ihb ih =>
    simp only [Row.events, Event.brackets_append, Event.brackets_opening, Event.brackets_closing,
      brackets_joinEvents, List.nil_append, Bracket.level, Bracket.level_append, ihb, Option.bind_some]
    exact ih depth

/-- Events that close all that they open leave the groups around them as they are. -/
theorem Event.path_append_of_balanced (before : List Event) {es : List Event} (h : Bracket.Balanced (brackets es)) :
    path (before ++ es) = path before := by
  obtain ⟨inner, hopened, hinner⟩ := Bracket.opened_append (brackets before) h
  rw [path, brackets_append, hopened, List.length_eq_zero_iff.mp hinner, List.append_nil, path]

/-- Every group that is opened in a row is closed in it. -/
theorem Row.exists_closing {row : Row} {before rest : List Event} {h : Head}
    (hsplit : row.events = before ++ .opening h :: rest) :
    ∃ inside after, rest = inside ++ .closing :: after ∧ Bracket.Balanced (Event.brackets inside) := by
  have hlevel := row.level_events 0
  rw [hsplit, Event.brackets_append, Bracket.level_append] at hlevel
  obtain ⟨depth, -, hrest⟩ := Option.bind_eq_some_iff.mp hlevel
  obtain ⟨inside, e, after, rfl, he, hinside⟩ := Bracket.exists_closing 0 (Nat.zero_le depth) hrest
  cases e with
  | closing => exact ⟨inside, after, rfl, hinside⟩
  | dot | zero | space | plus | opening => cases he

namespace Layout

def Canvas.draw (s : Spacing) (k : Canvas) : Event → Canvas
  | .dot c => k.dot c
  | .zero => k.skip s.zeroWidth
  | .space => k.skip s.spaceGap
  | .plus source => k.union s source
  | .opening h => k.openGroup s h
  | .closing => k.closeGroup s

/-- Draws some events, one behind the other. -/
def Canvas.drawAll (s : Spacing) (k : Canvas) (es : List Event) : Canvas :=
  es.foldl (Canvas.draw s) k

/-- The canvas behind some events. -/
def drawn (s : Spacing) (es : List Event) : Canvas :=
  Canvas.blank.drawAll s es

/-- The first thing in a row that the settings refuse. -/
def firstRefusal? (s : Settings) : Row → Option Fault
  | .nil => none
  | .cluster c _ rest => (refusal? s c.negativeSpan?).or (firstRefusal? s rest)
  | .group h body _ rest =>
    (refusal? s h.negativeSpan?).or ((firstRefusal? s body).or (firstRefusal? s rest))

namespace Canvas
variable {s : Spacing} {k : Canvas}

theorem drawAll_append (es fs : List Event) : k.drawAll s (es ++ fs) = (k.drawAll s es).drawAll s fs :=
  List.foldl_append

theorem drawAll_cons (e : Event) (es : List Event) : k.drawAll s (e :: es) = (k.draw s e).drawAll s es :=
  rfl

theorem drawAll_replicate (c : Cluster) (n : Nat) : k.drawAll s (List.replicate n (.dot c)) = k.dots c n := by
  induction n generalizing k with
  | zero => rfl
  | succ n ih => exact ih

theorem drawAll_cluster (c : Cluster) : k.drawAll s c.events = k.cluster s c := by
  unfold Cluster.events Canvas.cluster
  split
  · rfl
  · exact drawAll_replicate c c.magnitude

theorem drawAll_join (join : Option (Located Join)) (rest : Row) :
    k.drawAll s (Row.joinEvents join rest) = k.join s join rest := by
  unfold Row.joinEvents Canvas.join
  split
  · rfl
  · rcases join with _ | ⟨_ | _, _⟩ <;> rfl

end Canvas

/-! ### Placing is drawing -/

/-- A row is drawn, or its first refusal is reported. -/
theorem place_eq (s : Settings) (row : Row) (k : Canvas) :
    place s row k =
      match firstRefusal? s row with
      | some fault => .error fault
      | none => .ok (k.drawAll s.spacing row.events) := by
  induction row generalizing k with
  | nil => rfl
  | cluster c join rest ih =>
    rw [place, firstRefusal?]
    cases refusal? s c.negativeSpan? with
    | some fault => rfl
    | none =>
      rw [Row.events, Canvas.drawAll_append, Canvas.drawAll_append, Canvas.drawAll_cluster, Canvas.drawAll_join]
      exact ih _
  | group h body join rest ihb ih =>
    rw [place, firstRefusal?]
    cases refusal? s h.negativeSpan? with
    | some fault => rfl
    | none =>
      dsimp only
      rw [ihb, Option.none_or]
      cases firstRefusal? s body with
      | some fault => rfl
      | none =>
        dsimp only
        rw [ih, Option.none_or, Row.events, Canvas.drawAll_cons, Canvas.drawAll_append, Canvas.drawAll_cons,
          Canvas.drawAll_append, Canvas.drawAll_join]
        rfl

/-- A row has a layout unless it has too many dots or is refused, and the layout is what its events draw. -/
theorem ofRow_eq_ok_iff {s : Settings} {row : Row} {l : Layout} :
    ofRow s row = .ok l ↔
      row.dotCount ≤ s.maxElements ∧ firstRefusal? s row = none ∧ l = (drawn s.spacing row.events).layout := by
  unfold ofRow
  rw [place_eq]
  split
  · next hcount =>
    cases firstRefusal? s row with
    | some fault => simp
    | none => simpa [hcount, drawn] using eq_comm
  · next hcount => simp [hcount]

/-- A layout is drawn by the events of its row. -/
theorem eq_layout_of_ofRow {s : Settings} {row : Row} {l : Layout} (h : ofRow s row = .ok l) :
    l = (drawn s.spacing row.events).layout :=
  (ofRow_eq_ok_iff.mp h).2.2

end Layout

end Dotwork
