import Dotwork.Proofs.Drawing
import Dotwork.Proofs.Grammar
import Mathlib.Order.MinMax

/-!
# Relocation

The places of a line may be moved, as when text comes in front of it or a part is cut out of it. A function that keeps
their order moves tokens, rows and events alike: the tokens that are moved write the row that is moved, and its events
are those of the row, moved.
-/

namespace Dotwork

section Definitions
variable (g : Nat → Nat)

def Span.relocate (s : Span) : Span :=
  ⟨g s.start, g s.stop⟩

def Located.relocate {α : Type} (x : Located α) : Located α :=
  ⟨x.value, x.span.relocate g⟩

def Cluster.relocate (c : Cluster) : Cluster :=
  { c with span := c.span.relocate g }

def Head.relocate (h : Head) : Head :=
  ⟨h.sign.map (·.relocate g), h.magnitude.map (·.relocate g), h.parens.relocate g, h.span.relocate g⟩

def Row.relocate : Row → Row
  | .nil => .nil
  | .cluster c join rest => .cluster (c.relocate g) (join.map (·.relocate g)) rest.relocate
  | .group h body join rest => .group (h.relocate g) body.relocate (join.map (·.relocate g)) rest.relocate

def Term.relocate : Term → Term
  | .cluster c => .cluster (c.relocate g)
  | .group h body => .group (h.relocate g) (body.relocate g)

def Entry.relocate (e : Entry) : Entry :=
  ⟨e.term.relocate g, e.join.map (·.relocate g)⟩

def Event.relocate : Event → Event
  | .dot c => .dot (c.relocate g)
  | .plus source => .plus (source.relocate g)
  | .opening h => .opening (h.relocate g)
  | .zero => .zero
  | .space => .space
  | .closing => .closing

@[simp] theorem Located.value_relocate {α : Type} (x : Located α) : (x.relocate g).value = x.value :=
  rfl

end Definitions

/-! ### Rows and events -/

namespace Row
variable (g : Nat → Nat)

theorem relocate_cons (e : Entry) (rest : Row) : (cons e rest).relocate g = cons (e.relocate g) (rest.relocate g) := by
  obtain ⟨_ | _, _⟩ := e <;> rfl

theorem toList_relocate (row : Row) : (row.relocate g).toList = row.toList.map (Entry.relocate g) := by
  induction row with
  | nil => rfl
  | cluster c join rest ih => rw [relocate, toList, ih, toList, List.map_cons]; rfl
  | group h body join rest _ ih => rw [relocate, toList, ih, toList, List.map_cons]; rfl

theorem isEmpty_relocate (row : Row) : (row.relocate g).isEmpty = row.isEmpty := by
  cases row <;> rfl

theorem nesting_relocate (row : Row) : (row.relocate g).nesting = row.nesting := by
  induction row with
  | nil => rfl
  | cluster c join rest ih => exact ih
  | group h body join rest ihb ih => simp only [relocate, nesting, ihb, ih]

theorem relocate_relocate (f : Nat → Nat) (row : Row) :
    (row.relocate g).relocate f = row.relocate fun n => f (g n) := by
  have options : ∀ {α : Type} (x : Option (Located α)), (x.map (·.relocate g)).map (·.relocate f) =
      x.map (·.relocate fun n => f (g n)) := fun x => by cases x <;> rfl
  induction row with
  | nil => rfl
  | cluster c join rest ih =>
    simp only [relocate, options, ih]
    rfl
  | group h body join rest ihb ih =>
    simp only [relocate, Head.relocate, options, ihb, ih]
    rfl

/-- To forget the places is to move them all to the start. -/
theorem forget_eq_relocate (row : Row) : row.forget = row.relocate fun _ => 0 := by
  induction row with
  | nil => rfl
  | cluster c join rest ih =>
    rw [forget, ih]
    rfl
  | group h body join rest ihb ih =>
    rw [forget, ihb, ih]
    rfl

theorem alike_relocate (row : Row) : (row.relocate g).Alike row := by
  rw [Alike, forget_eq_relocate, forget_eq_relocate, relocate_relocate]

theorem joinEvents_relocate (join : Option (Located Join)) (rest : Row) :
    joinEvents (join.map (·.relocate g)) (rest.relocate g) = (joinEvents join rest).map (Event.relocate g) := by
  unfold joinEvents
  rw [isEmpty_relocate]
  split
  · rfl
  · rcases join with _ | ⟨_ | _, _⟩ <;> rfl

theorem events_relocate (row : Row) : (row.relocate g).events = row.events.map (Event.relocate g) := by
  induction row with
  | nil => rfl
  | cluster c join rest ih =>
    have hcluster : (c.relocate g).events = c.events.map (Event.relocate g) := by
      have hmagnitude : (c.relocate g).magnitude = c.magnitude := rfl
      unfold Cluster.events
      rw [hmagnitude]
      split
      · rfl
      · rw [List.map_replicate]
        rfl
    simp only [relocate, events, hcluster, joinEvents_relocate, ih, List.map_append]
  | group h body join rest ihb ih =>
    simp only [relocate, events, joinEvents_relocate, ihb, ih, List.map_append, List.map_cons]
    rfl

end Row

/-! ### Derivations -/

namespace Row
variable (g : Nat → Nat)

theorem relocate_startSpan (lead : List (Located Token)) (s : Span) :
    (startSpan lead s).relocate g = startSpan (lead.map (·.relocate g)) (s.relocate g) := by
  cases lead <;> rfl

theorem Gap.relocate {gap : List (Located Token)} (h : Gap gap) : Gap (gap.map (·.relocate g)) := by
  cases h with
  | none => exact .none
  | blank s => exact .blank (s.relocate g)

theorem CountLead.relocate {lead : List (Located Token)} {count : Int} (h : CountLead lead count) :
    CountLead (lead.map (·.relocate g)) count := by
  cases h with
  | plain n s => exact .plain n (s.relocate g)
  | negated n m s pos => exact .negated n (m.relocate g) (s.relocate g) pos

end Row

section Monotone
variable {g : Nat → Nat} (hg : Monotone g)
include hg

theorem Span.relocate_union (s t : Span) : (s.union t).relocate g = (s.relocate g).union (t.relocate g) := by
  simp only [relocate, union, hg.map_min, hg.map_max]

namespace Row

theorem relocate_cover (s : Span) (ts : List (Located Token)) :
    (cover s ts).relocate g = cover (s.relocate g) (ts.map (·.relocate g)) := by
  induction ts generalizing s with
  | nil => rfl
  | cons t ts ih =>
    have hunion := Span.relocate_union hg s t.span
    simp only [cover, List.foldl_cons, List.map_cons] at ih ⊢
    rw [ih, hunion]
    rfl

theorem GroupLead.relocate {lead : List (Located Token)} {sign : Option (Located Sign)}
    {magnitude : Option (Located Int)} (h : GroupLead lead sign magnitude) :
    GroupLead (lead.map (·.relocate g)) (sign.map (·.relocate g)) (magnitude.map (·.relocate g)) := by
  cases h with
  | bare => exact .bare
  | sign s p => exact .sign s (p.relocate g)
  | magnitude n s => exact .magnitude n (s.relocate g)
  | signed s n p q => exact .signed s n (p.relocate g) (q.relocate g)
  | negated s n p m q =>
    have moved := GroupLead.negated s n (p.relocate g) (m.relocate g) (q.relocate g)
    rwa [← Span.relocate_union hg] at moved

theorem Boundary.relocate {closed : Bool} {first : Token} {gap : List (Located Token)} {join : Option (Located Join)}
    (h : Boundary closed first gap join) :
    Boundary closed first (gap.map (·.relocate g)) (join.map (·.relocate g)) := by
  cases h with
  | plus p before behind =>
    have moved : Boundary closed first _ _ := .plus (p.relocate g) (before.relocate g) (behind.relocate g)
    rw [← List.map_append, ← relocate_cover hg] at moved
    simp only [List.map_append, List.map_cons] at moved ⊢
    exact moved
  | space s cluster noPlus noParen => exact .space (s.relocate g) cluster noPlus noParen
  | touch paren noPlus gap => exact .touch paren noPlus (gap.relocate g)

theorem Tie.relocate {closed : Bool} {gap next : List (Located Token)} {join : Option (Located Join)}
    (h : Tie closed gap join next) :
    Tie closed (gap.map (·.relocate g)) (join.map (·.relocate g)) (next.map (·.relocate g)) := by
  cases h with
  | last => exact .last
  | next boundary => exact .next (boundary.relocate hg)

theorem Terms.relocate {ts : List (Located Token)} {row : Row} (h : Terms ts row) :
    Terms (ts.map (·.relocate g)) (row.relocate g) := by
  induction h with
  | nil => exact .nil
  | @cluster lead gap next count join rest x s counts tie terms ih =>
    have moved := Terms.cluster x (s.relocate g) (counts.relocate g) (tie.relocate hg) ih
    rw [← relocate_startSpan, ← Span.relocate_union hg] at moved
    simp only [List.map_append, List.map_cons] at moved ⊢
    exact moved
  | @group lead a inner b gap next sign magnitude body join rest o c leads before content behind tie terms ihb ih =>
    have moved := Terms.group (o.relocate g) (c.relocate g) (leads.relocate hg) (before.relocate g) ihb
      (behind.relocate g) (tie.relocate hg) ih
    rw [← relocate_startSpan, ← Span.relocate_union hg, ← Span.relocate_union hg] at moved
    simp only [List.map_append, List.map_cons] at moved ⊢
    exact moved

end Row

end Monotone

end Dotwork
