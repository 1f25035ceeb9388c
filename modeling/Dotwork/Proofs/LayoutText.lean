import Dotwork.Layout.Json
import Dotwork.Proofs.JsonText
import Mathlib.Data.List.Basic

/-!
# Layouts and their texts

The JSON form of a layout holds all of it, and is read off its text again. So two layouts have the same text only if
they are the same.
-/

namespace Dotwork

open Function (Injective)

/-! ### Lossless forms -/

namespace Json
variable {α : Type} {form : α → Json}

/-- A JSON form that is read off its text, and that no two values share. -/
structure Lossless (form : α → Json) : Prop where
  exact : ∀ a, (form a).Exact
  injective : Injective form

theorem lossless_integer : Lossless integer :=
  ⟨.integer, fun _ _ => integer.inj⟩

theorem lossless_ofNat : Lossless ofNat :=
  ⟨fun n => .integer n, fun m n h => by simpa [ofNat] using h⟩

/-- Where no value has the form null, null stands for none alone. -/
theorem Lossless.option (lossless : Lossless form) (ne : ∀ a, form a ≠ .null) :
    Lossless fun o : Option α => ofOption (o.map form) where
  exact
    | none => .null
    | some a => lossless.exact a
  injective
    | none, none, _ => rfl
    | none, some a, h => absurd h.symm (ne a)
    | some a, none, h => absurd h (ne a)
    | some _, some _, h => congrArg some (lossless.injective h)

theorem Lossless.list (lossless : Lossless form) : Lossless fun as : List α => array (as.map form) where
  exact _ := .array (List.forall_mem_map.mpr fun a _ => lossless.exact a)
  injective _ _ h := List.map_injective_iff.mpr lossless.injective (array.inj h)

end Json

/-! ### Parts of rows and of the grid -/

theorem Span.lossless : Json.Lossless Span.json where
  exact _ := .object (by simp [Json.lossless_ofNat.exact])
  injective := by
    rintro ⟨start, stop⟩ ⟨start', stop'⟩ h
    simpa [Span.json, Json.lossless_ofNat.injective.eq_iff] using h

theorem Sign.lossless : Json.Lossless Sign.json where
  exact g := by cases g <;> exact .string _
  injective g g' h := by cases g <;> cases g' <;> simp [Sign.json] at h ⊢

theorem Symbol.lossless : Json.Lossless Symbol.json where
  exact _ := .string _
  injective := by
    rintro ⟨c, _⟩ ⟨c', _⟩ h
    simpa [Symbol.json] using h

theorem Grid.Columns.lossless : Json.Lossless Grid.Columns.json where
  exact _ := .object (by simp [Json.lossless_ofNat.exact])
  injective := by
    rintro ⟨start, stop⟩ ⟨start', stop'⟩ h
    simpa [Grid.Columns.json, Json.lossless_ofNat.injective.eq_iff] using h

theorem Grid.Point.lossless : Json.Lossless Grid.Point.json where
  exact _ := .object (by simp [Json.lossless_ofNat.exact])
  injective := by
    rintro ⟨column, depth⟩ ⟨column', depth'⟩ h
    simpa [Grid.Point.json, Json.lossless_ofNat.injective.eq_iff] using h

namespace Layout

/-! ### Elements, boundaries and markers -/

theorem GroupId.lossless : Json.Lossless GroupId.json where
  exact id := Json.lossless_ofNat.exact id.index
  injective := by
    rintro ⟨i⟩ ⟨j⟩ h
    exact congrArg GroupId.mk (Json.lossless_ofNat.injective h)

theorem ElementId.lossless : Json.Lossless ElementId.json where
  exact id := Json.lossless_ofNat.exact id.index
  injective := by
    rintro ⟨i⟩ ⟨j⟩ h
    exact congrArg ElementId.mk (Json.lossless_ofNat.injective h)

theorem lossless_group : Json.Lossless fun id : Option GroupId => .ofOption (id.map GroupId.json) :=
  GroupId.lossless.option nofun

theorem lossless_sign : Json.Lossless fun sign : Option Sign => .ofOption (sign.map Sign.json) :=
  Sign.lossless.option fun g => by cases g <;> exact nofun

theorem lossless_magnitude : Json.Lossless fun magnitude : Option Int => .ofOption (magnitude.map .integer) :=
  Json.lossless_integer.option nofun

theorem Element.lossless : Json.Lossless Element.json where
  exact _ := .object (by
    simp [ElementId.lossless.exact, Grid.Point.lossless.exact, Symbol.lossless.exact, Sign.lossless.exact,
      GroupId.lossless.list.exact, Span.lossless.exact])
  injective := by
    rintro ⟨id, position, symbol, sign, path, source⟩ ⟨id', position', symbol', sign', path', source'⟩ h
    simpa [Element.json, ElementId.lossless.injective.eq_iff, Grid.Point.lossless.injective.eq_iff,
      Symbol.lossless.injective.eq_iff, Sign.lossless.injective.eq_iff,
      (List.map_injective_iff.mpr GroupId.lossless.injective).eq_iff, Span.lossless.injective.eq_iff] using h

theorem Boundary.lossless : Json.Lossless Boundary.json where
  exact b := by
    have elements : (Json.object [("start", .ofNat b.elements.start), ("end", .ofNat b.elements.stop)]).Exact :=
      .object (by simp [Json.lossless_ofNat.exact])
    exact .object (by
      simp [GroupId.lossless.exact, lossless_group.exact, Json.lossless_ofNat.exact, lossless_sign.exact,
        lossless_magnitude.exact, Grid.Columns.lossless.exact, elements, Span.lossless.exact])
  injective := by
    rintro ⟨id, parent, depth, sign, magnitude, columns, ⟨start, stop⟩, source⟩
      ⟨id', parent', depth', sign', magnitude', columns', ⟨start', stop'⟩, source'⟩ h
    simpa [Boundary.json, GroupId.lossless.injective.eq_iff, lossless_group.injective.eq_iff,
      Json.lossless_ofNat.injective.eq_iff, lossless_sign.injective.eq_iff, lossless_magnitude.injective.eq_iff,
      Grid.Columns.lossless.injective.eq_iff, Span.lossless.injective.eq_iff] using h

theorem Marker.lossless : Json.Lossless Marker.json where
  exact _ := .object (by simp [Json.lossless_ofNat.exact, lossless_group.exact, Span.lossless.exact])
  injective := by
    rintro ⟨column, depth, group, source⟩ ⟨column', depth', group', source'⟩ h
    simpa [Marker.json, Json.lossless_ofNat.injective.eq_iff, lossless_group.injective.eq_iff,
      Span.lossless.injective.eq_iff] using h

/-! ### Layouts -/

/-- Boundaries under their numbers: the number is in the boundary, too, so the boundaries alone tell two lists apart. -/
theorem lossless_groups : Json.Lossless fun bs : List Boundary =>
    .object (bs.map fun b => (toString b.id.index, b.json)) where
  exact _ := .object (List.forall_mem_map.mpr fun b _ => Boundary.lossless.exact b)
  injective _ _ h := by
    have entry : Injective fun b : Boundary => (toString b.id.index, b.json) := fun b b' h =>
      Boundary.lossless.injective (Prod.mk.inj h).2
    exact List.map_injective_iff.mpr entry (Json.object.inj h)

theorem lossless : Json.Lossless json where
  exact l := .object (by
    simp only [List.forall_mem_cons]
    exact ⟨Element.lossless.list.exact _, lossless_groups.exact _, Marker.lossless.list.exact _,
      Json.lossless_ofNat.exact _, nofun⟩)
  injective := by
    rintro ⟨elements, groups, unions, width⟩ ⟨elements', groups', unions', width'⟩ h
    simp only [json, Json.object.injEq, List.cons.injEq, Prod.mk.injEq, true_and, and_true] at h
    obtain ⟨elementsEq, groupsEq, unionsEq, widthEq⟩ := h
    rw [Array.toList_inj.mp (Element.lossless.list.injective elementsEq),
      Array.toList_inj.mp (lossless_groups.injective (congrArg Json.object groupsEq)),
      Array.toList_inj.mp (Marker.lossless.list.injective unionsEq), Json.lossless_ofNat.injective widthEq]

/-- The text of a layout is read as its JSON form. -/
theorem ofText?_text (l : Layout) : Json.ofText? l.text = some l.json :=
  (lossless.exact l).ofText?_tall

/-- Layouts have the same text if and only if they are the same: their elements, groups and markers in order, and their
    widths. -/
theorem text_eq_text_iff (l l' : Layout) : l.text = l'.text ↔ l = l' := by
  constructor
  · intro h
    have forms : some l.json = some l'.json := by rw [← ofText?_text, h, ofText?_text]
    exact lossless.injective (Option.some.inj forms)
  · exact congrArg text

end Layout

end Dotwork
