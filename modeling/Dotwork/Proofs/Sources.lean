import Dotwork.Proofs.Relocation
import Dotwork.Row.Text

/-!
# Sources

The places of the parts of a row show in its layout as sources and nowhere else: rows that differ only in places have
layouts that differ only in sources, or are refused for the same reason. Their canonical text is the same.
-/

namespace Dotwork

/-! ### Without places -/

def Cluster.forget (c : Cluster) : Cluster :=
  { c with span := default }

def Head.forget (h : Head) : Head :=
  ⟨h.sign.map Located.forget, h.magnitude.map Located.forget, default, default⟩

def Event.forget : Event → Event
  | .dot c => .dot c.forget
  | .plus _ => .plus default
  | .opening h => .opening h.forget
  | .zero => .zero
  | .space => .space
  | .closing => .closing

namespace Layout

def Element.forget (e : Element) : Element :=
  { e with source := default }

def Boundary.forget (b : Boundary) : Boundary :=
  { b with source := default }

def Marker.forget (m : Marker) : Marker :=
  { m with source := default }

/-- A layout without the sources of its members. -/
def forget (l : Layout) : Layout :=
  ⟨l.elements.map Element.forget, l.groups.map Boundary.forget, l.unions.map Marker.forget, l.width⟩

/-- A fault without the place that it points at. -/
def Fault.forget : Fault → Fault
  | .negative _ => .negative default
  | .tooManyDots count limit _ => .tooManyDots count limit default

def Canvas.forget (k : Canvas) : Canvas :=
  { k with
    elements := k.elements.map Element.forget
    groups := k.groups.map Boundary.forget
    unions := k.unions.map Marker.forget }

end Layout

theorem Cluster.isSome_negativeSpan?_forget (c : Cluster) :
    c.forget.negativeSpan?.isSome = c.negativeSpan?.isSome := by
  have hcount : c.forget.count = c.count := rfl
  unfold negativeSpan?
  rw [hcount]
  split <;> rfl

theorem Head.isNegated_forget (h : Head) : h.forget.isNegated = h.isNegated := by
  obtain ⟨sign, magnitude, _, _⟩ := h
  rcases sign with _ | ⟨_ | _, _⟩ <;> rcases magnitude with _ | ⟨m, _⟩ <;> try rfl
  all_goals
    simp only [isNegated, negativeSpan?, forget, Option.map, Located.forget]
    split <;> rfl

namespace Layout

/-! ### Drawing -/

namespace Canvas
variable (s : Spacing) (k : Canvas)

theorem extend_forget (column element : Nat) (b : Boundary) :
    (extend column element b).forget = extend column element b.forget :=
  rfl

theorem map_modify {α β : Type} {f : α → β} {g : α → α} {g' : β → β} (h : ∀ x, f (g x) = g' (f x)) (xs : Array α)
    (i : Nat) : (xs.modify i g).map f = (xs.map f).modify i g' := by
  ext j hj hj'
  · simp
  · simp only [Array.getElem_map, Array.getElem_modify]
    split
    · exact h _
    · rfl

theorem draw_forget (e : Event) : (k.draw s e).forget = k.forget.draw s e.forget := by
  cases e with
  | dot c => simp [draw, dot, forget, Event.forget, Element.forget, Cluster.forget, Cluster.sign, Array.map_push]
  | zero | space => rfl
  | plus source => simp [draw, union, forget, Event.forget, Marker.forget, Array.map_push]
  | opening h =>
    obtain ⟨sign, magnitude, _, _⟩ := h
    cases sign <;> cases magnitude <;>
      simp [draw, openGroup, skip, forget, Event.forget, Boundary.forget, Head.forget, Located.forget, Array.map_push]
  | closing =>
    simp only [draw, closeGroup, forget, Event.forget]
    split
    · rfl
    · simp only [map_modify (extend_forget _ _), Array.size_map]

theorem drawAll_forget (es : List Event) : (k.drawAll s es).forget = k.forget.drawAll s (es.map Event.forget) := by
  induction es generalizing k with
  | nil => rfl
  | cons e es ih => rw [drawAll_cons, ih, draw_forget, List.map_cons, drawAll_cons]

end Canvas

end Layout

/-! ### Rows -/

namespace Row

theorem isEmpty_forget (row : Row) : row.forget.isEmpty = row.isEmpty := by
  cases row <;> rfl

theorem events_forget (row : Row) : row.forget.events = row.events.map Event.forget := by
  have hevent : ∀ e : Event, e.forget = e.relocate fun _ => 0 := fun e => by cases e <;> rfl
  rw [forget_eq_relocate, events_relocate, funext hevent]

theorem dotCount_forget (row : Row) : row.forget.dotCount = row.dotCount := by
  induction row with
  | nil => rfl
  | cluster c join rest ih => simp only [forget, dotCount, ih, Cluster.magnitude]
  | group h body join rest ihb ih => simp only [forget, dotCount, ihb, ih]

theorem joinChars_forget (join : Option (Located Join)) (rest : Row) :
    joinChars (join.map Located.forget) rest.forget = joinChars join rest := by
  unfold joinChars
  rw [isEmpty_forget]
  cases join <;> rfl

theorem chars_forget (row : Row) : row.forget.chars = row.chars := by
  induction row with
  | nil => rfl
  | cluster c join rest ih =>
    simp only [forget, chars, joinChars_forget, ih]
    rfl
  | group h body join rest ihb ih =>
    obtain ⟨sign, magnitude, _, _⟩ := h
    simp only [forget, chars, joinChars_forget, ihb, ih]
    cases sign <;> cases magnitude <;> rfl

/-- Rows that are alike have the same canonical text. -/
theorem Alike.text_eq {row row' : Row} (h : row'.Alike row) : row'.text = row.text := by
  rw [text, text, ← chars_forget row', ← chars_forget row, h]

end Row

namespace Layout

theorem refusal?_forget (s : Settings) {x y : Option Span} (h : x.isSome = y.isSome) :
    (refusal? s x).map Fault.forget = (refusal? s y).map Fault.forget := by
  unfold refusal?
  cases s.negatives with
  | mark => rfl
  | reject => cases x <;> cases y <;> simp_all [Fault.forget]

theorem firstRefusal?_forget (s : Settings) (row : Row) :
    (firstRefusal? s row.forget).map Fault.forget = (firstRefusal? s row).map Fault.forget := by
  have map_or : ∀ x y : Option Fault, (x.or y).map Fault.forget = (x.map Fault.forget).or (y.map Fault.forget) :=
    fun x y => by cases x <;> rfl
  induction row with
  | nil => rfl
  | cluster c join rest ih =>
    rw [firstRefusal?, map_or, ← ih, ← refusal?_forget s c.isSome_negativeSpan?_forget, ← map_or]
    rfl
  | group h body join rest ihb ih =>
    rw [firstRefusal?, map_or, map_or, ← ihb, ← ih, ← refusal?_forget s h.isNegated_forget, ← map_or, ← map_or]
    rfl

theorem layout_forget_of_alike (s : Spacing) {row row' : Row} (h : row'.Alike row) :
    (drawn s row'.events).layout.forget = (drawn s row.events).layout.forget := by
  have hevents : row'.events.map Event.forget = row.events.map Event.forget := by
    rw [← Row.events_forget, ← Row.events_forget, h]
  have hdrawn : (drawn s row'.events).forget = (drawn s row.events).forget := by
    rw [drawn, drawn, Canvas.drawAll_forget, Canvas.drawAll_forget, hevents]
  have hlayout : ∀ k : Canvas, k.layout.forget = k.forget.layout := fun k => rfl
  rw [hlayout, hlayout, hdrawn]

/-- Rows that are alike have layouts that differ only in sources, or are refused for the same reason. -/
theorem ofRow_of_alike (s : Settings) {row row' : Row} (h : row'.Alike row) :
    (∃ l l', ofRow s row = .ok l ∧ ofRow s row' = .ok l' ∧ l'.forget = l.forget) ∨
      ∃ f f', ofRow s row = .error f ∧ ofRow s row' = .error f' ∧ f'.forget = f.forget := by
  have hcount : row'.dotCount = row.dotCount := by rw [← Row.dotCount_forget, h, Row.dotCount_forget]
  have hrefusal : (firstRefusal? s row').map Fault.forget = (firstRefusal? s row).map Fault.forget := by
    rw [← firstRefusal?_forget, h, firstRefusal?_forget]
  simp only [ofRow, place_eq, hcount]
  split
  · cases hf : firstRefusal? s row with
    | none =>
      rw [hf, Option.map_none, Option.map_eq_none_iff] at hrefusal
      rw [hrefusal]
      exact Or.inl ⟨_, _, rfl, rfl, layout_forget_of_alike s.spacing h⟩
    | some f =>
      rw [hf, Option.map_some, Option.map_eq_some_iff] at hrefusal
      obtain ⟨f', hf', hforget⟩ := hrefusal
      rw [hf']
      exact Or.inr ⟨f, f', rfl, rfl, hforget⟩
  · exact Or.inr ⟨_, _, rfl, rfl, rfl⟩

end Layout

end Dotwork
