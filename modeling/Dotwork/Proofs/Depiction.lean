import Dotwork.Proofs.Grammar
import Dotwork.Proofs.Places
import Dotwork.Proofs.Sources

/-!
# What a layout shows of its row

The parts of a row in the order of the text, each with the groups around it, are told from the row alone. A layout
shows them all, and nothing else, in that order: the dots of the clusters, the groups, and the plus joins that tie
something. Its depth is the nesting of the row.
-/

namespace Dotwork

open Layout (GroupId)

/-! ### Parts -/

/-- What a layout shows. A group comes with its number. -/
inductive Piece
  | cluster (c : Cluster)
  | group (id : GroupId) (h : Head)
  | plus (source : Span)

/-- A piece with the groups around it, outermost first. -/
structure Part where
  path : List GroupId
  piece : Piece

namespace Part

def dots : Part → List (Symbol × Sign × Span × List GroupId)
  | ⟨path, .cluster c⟩ => List.replicate c.count.natAbs (c.symbol, .ofCount c.count, c.span, path)
  | ⟨_, .group ..⟩ | ⟨_, .plus _⟩ => []

/-- The boundary of a group, but for what it spans. -/
def boundary : Part → List Layout.Boundary
  | ⟨path, .group id h⟩ =>
    [{ id
       parent := path.getLast?
       depth := path.length + 1
       sign := h.sign.map Located.value
       magnitude := h.magnitude.map Located.value
       columns := default
       elements := default
       source := h.span }]
  | ⟨_, .cluster _⟩ | ⟨_, .plus _⟩ => []

/-- Where a plus join is written, the number of groups around it, and the innermost of them. -/
def tie : Part → List (Span × Nat × Option GroupId)
  | ⟨path, .plus source⟩ => [(source, path.length, path.getLast?)]
  | ⟨_, .cluster _⟩ | ⟨_, .group ..⟩ => []

end Part

namespace Row

def groupCount : Row → Nat
  | .nil => 0
  | .cluster _ _ rest => rest.groupCount
  | .group _ body _ rest => body.groupCount + 1 + rest.groupCount

/-- A plus join is shown where a term follows. -/
def joinParts (path : List GroupId) (join : Option (Located Join)) (rest : Row) : List Part :=
  match join with
  | some ⟨.plus, source⟩ => if rest.isEmpty then [] else [⟨path, .plus source⟩]
  | some ⟨.space, _⟩ | none => []

/-- The parts of a row in the groups of `path`, when the next group has the number `next`. A group comes in front of
    its body, and takes the next number there. -/
def partsIn (path : List GroupId) (next : Nat) : Row → List Part
  | .nil => []
  | .cluster c join rest => ⟨path, .cluster c⟩ :: (joinParts path join rest ++ rest.partsIn path next)
  | .group h body join rest =>
    ⟨path, .group ⟨next⟩ h⟩ :: (body.partsIn (path ++ [⟨next⟩]) (next + 1) ++
      (joinParts path join rest ++ rest.partsIn path (next + 1 + body.groupCount)))

def parts (row : Row) : List Part :=
  row.partsIn [] 0

end Row

/-! ### Parts and events -/

namespace Row

theorem openings_events (row : Row) : Bracket.openings (Event.brackets row.events) = row.groupCount := by
  induction row with
  | nil => rfl
  | cluster c join rest ih => simp [events, groupCount, ih]
  | group h body join rest ihb ih =>
    have hopen : ∀ bs, Bracket.openings (.opening :: bs) = Bracket.openings bs + 1 := fun bs => List.count_cons_self
    have hclose : ∀ bs, Bracket.openings (.closing :: bs) = Bracket.openings bs := fun bs =>
      List.count_cons_of_ne (by decide)
    simp only [events, groupCount, Event.brackets_opening, Event.brackets_append, Event.brackets_closing, hopen, hclose,
      Bracket.openings_append, brackets_joinEvents, List.nil_append, ihb, ih]
    omega

end Row

/-- What is told of the events, each in the light of those in front, is told of the parts. -/
structure Tells {β : Type} (f : List Event → Event → List β) (g : Part → List β) : Prop where
  cluster : ∀ before c, scan f before c.events = g ⟨Event.path before, .cluster c⟩
  opening : ∀ before h, f before (.opening h) =
    g ⟨Event.path before, .group ⟨Bracket.openings (Event.brackets before)⟩ h⟩
  plus : ∀ before source, f before (.plus source) = g ⟨Event.path before, .plus source⟩
  space : ∀ before, f before .space = []
  closing : ∀ before, f before .closing = []

section Tells
variable {β : Type} {f : List Event → Event → List β} {g : Part → List β} (tells : Tells f g)
include tells

theorem Tells.scan_joinEvents (before : List Event) (join : Option (Located Join)) (rest : Row) :
    scan f before (Row.joinEvents join rest) = (Row.joinParts (Event.path before) join rest).flatMap g := by
  unfold Row.joinEvents Row.joinParts
  cases hrest : rest.isEmpty with
  | true => rcases join with _ | ⟨_ | _, _⟩ <;> rfl
  | false => rcases join with _ | ⟨_ | _, source⟩ <;> simp [scan, tells.space, tells.plus]

theorem Tells.scan_events (row : Row) (before : List Event) :
    scan f before row.events =
      (row.partsIn (Event.path before) (Bracket.openings (Event.brackets before))).flatMap g := by
  induction row generalizing before with
  | nil => rfl
  | cluster c join rest ih =>
    have hcluster : Event.path (before ++ c.events) = Event.path before :=
      Event.path_append_of_balanced before (by rw [brackets_events]; rfl)
    have hjoin : Event.path (before ++ c.events ++ Row.joinEvents join rest) = Event.path before := by
      rw [Event.path_append_of_balanced _ (by rw [brackets_joinEvents]; rfl), hcluster]
    rw [Row.events, scan_append, scan_append, ← List.append_assoc, ih, tells.cluster, tells.scan_joinEvents, hcluster,
      hjoin]
    simp [Row.partsIn]
  | group h body join rest ihb ih =>
    -- The path is that of the body behind the opening, and again that of the group behind the closing.
    have hopen : Event.path (before ++ [.opening h]) =
        Event.path before ++ [⟨Bracket.openings (Event.brackets before)⟩] := Layout.path_concat before (.opening h)
    have hgroup : Event.path (before ++ [.opening h] ++ body.events ++ [.closing]) = Event.path before := by
      rw [List.append_assoc before, List.singleton_append]
      exact Layout.path_behind_closing (body.level_events 0)
    have hjoin : Event.path (before ++ [.opening h] ++ body.events ++ [.closing] ++ Row.joinEvents join rest) =
        Event.path before := by
      rw [Event.path_append_of_balanced _ (by rw [brackets_joinEvents]; rfl), hgroup]
    have hbody : Bracket.openings (Event.brackets (before ++ [.opening h])) =
        Bracket.openings (Event.brackets before) + 1 := by simp [Bracket.openings]
    have hrest : Bracket.openings (Event.brackets
        (before ++ [.opening h] ++ body.events ++ [.closing] ++ Row.joinEvents join rest)) =
          Bracket.openings (Event.brackets before) + 1 + body.groupCount := by
      rw [Event.brackets_append, brackets_joinEvents, List.append_nil, Event.brackets_append, Bracket.openings_append,
        Event.brackets_append, Bracket.openings_append, hbody, Row.openings_events]
      rfl
    rw [Row.events, scan, scan_append, scan, scan_append, ihb, ih, tells.scan_joinEvents, tells.opening, tells.closing,
      hopen, hgroup, hjoin, hbody, hrest]
    simp [Row.partsIn]

theorem Tells.scan_parts (row : Row) : scan f [] row.events = row.parts.flatMap g :=
  tells.scan_events row []

end Tells

namespace Layout

/-! ### What is shown -/

def Boundary.legend (b : Boundary) : Boundary :=
  { b with columns := default, elements := default }

def legendsOf (before : List Event) : Event → List Boundary
  | .opening h => Part.boundary ⟨Event.path before, .group ⟨Bracket.openings (Event.brackets before)⟩ h⟩
  | .dot _ | .zero | .space | .plus _ | .closing => []

theorem Canvas.draw_legends (s : Spacing) (k : Canvas) (e : Event) :
    (k.draw s e).groups.toList.map Boundary.legend =
      k.groups.toList.map Boundary.legend ++
        match e with
        | .opening h => Part.boundary ⟨k.path, .group ⟨k.groups.size⟩ h⟩
        | .dot _ | .zero | .space | .plus _ | .closing => [] := by
  cases e with
  | opening h => simp [draw, openGroup, Boundary.legend, Part.boundary]
  | closing =>
    simp only [draw, closeGroup, List.append_nil]
    split
    · rfl
    · have kept : ∀ column element b, (extend column element b).legend = id b.legend := fun _ _ _ => rfl
      rw [← Array.toList_map, map_modify (kept _ _)]
      simp
  | dot | zero | space | plus => exact (List.append_nil _).symm

theorem drawn_legends (s : Spacing) (es : List Event) :
    (drawn s es).groups.toList.map Boundary.legend = scan legendsOf [] es := by
  induction es using List.reverseRecOn with
  | nil => rfl
  | append_singleton es e ih =>
    rw [drawn_concat, Canvas.draw_legends, ih, scan_concat, List.nil_append]
    cases e with
    | opening h => simp only [legendsOf, drawn_path, drawn_groups_size]
    | dot | zero | space | plus | closing => rfl

theorem tells_dots (s : Spacing) :
    Tells (fun before e => (elementsOf s before e).map fun e => (e.symbol, e.sign, e.source, e.path)) Part.dots where
  cluster before c := by
    rw [c.scan_events (fun _ => rfl) fun es fs h => by simp only [elementsOf, elementAt, Event.path, h, List.map_cons]]
    exact List.flatten_replicate_singleton
  opening _ _ := rfl
  plus _ _ := rfl
  space _ := rfl
  closing _ := rfl

theorem tells_legends : Tells legendsOf Part.boundary where
  cluster before c := by
    rw [c.scan_events (fun _ => rfl) fun _ _ _ => rfl]
    exact List.flatten_replicate_nil
  opening _ _ := rfl
  plus _ _ := rfl
  space _ := rfl
  closing _ := rfl

theorem tells_ties (s : Spacing) :
    Tells (fun before e => (markersOf s before e).map fun m => (m.source, m.depth, m.group)) Part.tie where
  cluster before c := by
    rw [c.scan_events (fun _ => rfl) fun _ _ _ => rfl]
    exact List.flatten_replicate_nil
  opening _ _ := rfl
  plus _ _ := rfl
  space _ := rfl
  closing _ := rfl

/-- A layout shows all parts of a row in their order, numbers the elements and the groups in that order, and is as deep
    as the row nests. -/
structure Depicts (row : Row) (l : Layout) : Prop where
  elements : l.elements.toList.map (fun e => (e.symbol, e.sign, e.source, e.path)) = row.parts.flatMap Part.dots
  elementIds : ∀ (i : Nat) e, l.elements[i]? = some e → e.id = ⟨i⟩
  groups : l.groups.toList.map Boundary.legend = row.parts.flatMap Part.boundary
  groupIds : ∀ (i : Nat) b, l.groups[i]? = some b → b.id = ⟨i⟩
  unions : l.unions.toList.map (fun m => (m.source, m.depth, m.group)) = row.parts.flatMap Part.tie
  depth : l.depth = row.nesting

section Depth
variable {n : Nat}

theorem foldl_max_depth_le (bs : List Boundary) (k : Nat) :
    bs.foldl (fun deepest b => max deepest b.depth) k ≤ n ↔ k ≤ n ∧ ∀ b ∈ bs, b.depth ≤ n := by
  induction bs generalizing k with
  | nil => simp
  | cons b bs ih => rw [List.foldl_cons, ih, Nat.max_le, List.forall_mem_cons, and_assoc]

theorem depth_le_iff {l : Layout} : l.depth ≤ n ↔ ∀ b ∈ l.groups.toList.map Boundary.legend, b.depth ≤ n := by
  rw [depth, ← Array.foldl_toList, foldl_max_depth_le, List.forall_mem_map]
  exact and_iff_right (Nat.zero_le n)

theorem flatMap_boundary_joinParts (path : List GroupId) (join : Option (Located Join)) (rest : Row) :
    (Row.joinParts path join rest).flatMap Part.boundary = [] := by
  unfold Row.joinParts
  rcases join with _ | ⟨_ | _, source⟩
  · rfl
  · rfl
  · cases rest.isEmpty <;> rfl

/-- The groups of a row are no deeper than a bound if and only if it leaves room for the nesting of the row. -/
theorem boundary_depth_le_iff (row : Row) (path : List GroupId) (next : Nat) (hpath : path.length ≤ n) :
    (∀ b ∈ (row.partsIn path next).flatMap Part.boundary, b.depth ≤ n) ↔ path.length + row.nesting ≤ n := by
  induction row generalizing path next with
  | nil => simpa [Row.partsIn, Row.nesting] using hpath
  | cluster c join rest ih =>
    simp only [Row.partsIn, List.flatMap_cons, List.flatMap_append, flatMap_boundary_joinParts, Row.nesting]
    exact ih path next hpath
  | group h body join rest ihb ih =>
    simp only [Row.partsIn, List.flatMap_cons, List.flatMap_append, flatMap_boundary_joinParts, Row.nesting,
      Part.boundary, List.nil_append, List.singleton_append, List.forall_mem_cons, List.forall_mem_append]
    rcases Nat.lt_or_ge path.length n with hroom | hfull
    · have hbody : (path ++ [(⟨next⟩ : GroupId)]).length = path.length + 1 := List.length_append
      rw [ihb _ _ (hbody ▸ hroom), ih _ _ hpath, hbody]
      omega
    · -- With as many groups around it the group itself is too deep, whatever is in it.
      refine iff_of_false (fun hdepth => ?_) (by omega)
      exact Nat.not_lt_of_ge hfull hdepth.1

theorem depth_eq_nesting {s : Settings} {row : Row} {l : Layout} (h : ofRow s row = .ok l) : l.depth = row.nesting := by
  obtain rfl := eq_layout_of_ofRow h
  refine eq_of_forall_ge_iff fun n => ?_
  rw [depth_le_iff, show (drawn s.spacing row.events).layout.groups = (drawn s.spacing row.events).groups from rfl,
    drawn_legends, tells_legends.scan_parts, Row.parts, boundary_depth_le_iff row [] 0 (Nat.zero_le n),
    List.length_nil, Nat.zero_add]

end Depth

theorem depicts_of_ofRow {s : Settings} {row : Row} {l : Layout} (h : ofRow s row = .ok l) : Depicts row l := by
  have hdepth := depth_eq_nesting h
  obtain rfl := eq_layout_of_ofRow h
  constructor
  case elements =>
    rw [← (tells_dots s.spacing).scan_parts, ← map_scan, ← drawn_elements]
    rfl
  case elementIds =>
    intro i e he
    obtain ⟨p, c, -, hi, rfl⟩ := exists_place_of_element he
    exact congrArg ElementId.mk hi
  case groups =>
    rw [← tells_legends.scan_parts, ← drawn_legends s.spacing]
    rfl
  case groupIds =>
    intro i b hb
    exact (exists_reaches hb).1
  case unions =>
    rw [← (tells_ties s.spacing).scan_parts, ← map_scan, ← drawn_unions]
    rfl
  case depth => exact hdepth

/-- Joins with nothing behind them, one in a group and one behind it, and a group without dots. -/
theorem depicts_of_stray_joins :
    let d : Symbol := ⟨'d', by decide +kernel⟩
    let plus (start : Nat) : Option (Located Join) := some ⟨.plus, ⟨start, start + 1⟩⟩
    let body : Row := .cluster ⟨-2, d, ⟨2, 5⟩⟩ (plus 5) (.group ⟨none, none, ⟨6, 8⟩, ⟨6, 8⟩⟩ .nil (plus 8) .nil)
    let row : Row := .group ⟨some ⟨.minus, ⟨0, 1⟩⟩, none, ⟨1, 10⟩, ⟨0, 10⟩⟩ body (plus 10) .nil
    ∃ l, ofRow {} row = .ok l ∧ Depicts row l ∧ l.elements.size = 2 ∧ l.groups.size = 2 ∧
      l.unions.toList.map (·.source) = [⟨5, 6⟩] ∧ l.depth = 2 := by
  intro d plus body row
  have h : ofRow {} row = .ok (drawn {} row.events).layout := rfl
  have depicts := depicts_of_ofRow h
  exact ⟨_, h, depicts, by decide +kernel, by decide +kernel, by decide +kernel, depicts.depth⟩

end Layout

end Dotwork
