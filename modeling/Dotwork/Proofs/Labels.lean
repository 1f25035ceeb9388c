import Dotwork.Proofs.Offenders
import Dotwork.Proofs.Provenance

/-!
# Where the labels of a diagnostic stand

The one diagnostic of a line that is read into tokens but into no row marks what the grammar of rows says it should:
the token that breaks the line, the group that stays open, or the beginning of a term that comes to nothing. Each mark
covers whole glyphs, of which neither the first nor the last is blank.
-/

namespace Dotwork.Row

/-! ### Places -/

/-- The first and the last one of some tokens, neither of which is blank. -/
structure Edges (words : List (Located Token)) (first last : Located Token) : Prop where
  front : words.head? = some first
  back : words.getLast? = some last
  solid : first.value ≠ .blank ∧ last.value ≠ .blank

theorem Edges.start_stop {words : List (Located Token)} {first last : Located Token} {n m : Nat}
    (h : Edges words first last) (tiles : Tiles n m words) : first.span.start = n ∧ last.span.stop = m := by
  obtain ⟨behind, hbehind⟩ := List.head?_eq_some_iff.mp h.front
  obtain ⟨before, hbefore⟩ := List.getLast?_eq_some_iff.mp h.back
  have front := hbehind ▸ tiles
  have back := hbefore ▸ tiles
  exact ⟨front.1, back.stop_of_concat⟩

/-- The span reaches from the first to the last one of some tokens, neither of which is blank. -/
def Marks (words : List (Located Token)) (span : Span) : Prop :=
  ∃ first last, Edges words first last ∧ span = ⟨first.span.start, last.span.stop⟩

/-- Where the labels stand that a cause calls for, the primary one and the others, among tokens that are no row. -/
inductive Placement (limit : Nat) (ts : List (Located Token)) : Fault.Cause → Span → List Span → Prop
  | tooDeep {before : List (Located Token)} {p : Located Token} (beyond : FirstBeyond limit ts before p) :
    Placement limit ts .tooDeep p.span []
  | strayClose {before : List (Located Token)} {p : Span} (offends : Offends ts before ⟨.rightParen, p⟩)
    (outer : Tokens.Closed before) : Placement limit ts .strayClose p []
  | groupOpen {front gap inner : List (Located Token)} {paren : Located Token} {span : Span}
    (unfinished : Unfinished ts) (split : ts = front ++ gap) (opened : Tokens.Open front paren inner)
    (gap : Gap gap) (marks : Marks (paren :: inner) span) : Placement limit ts .groupOpen span []
  | joinMissing {front words : List (Located Token)} {c : Cluster} {t : Located Token}
    (offends : Offends ts (front ++ words) t) (begins : t.value.BeginsCount) (previous : WritesTerm words (.cluster c))
    (touches : c.span.stop = t.span.start) : Placement limit ts (.joinMissing c.span) t.span [c.span]
  | trailing {before : List (Located Token)} {x : Symbol} {p : Span} (offends : Offends ts before ⟨.symbol x, p⟩)
    (outer : Tokens.Closed before) : Placement limit ts .trailing p []
  | termMissing {front words gap : List (Located Token)} {term : Term} {first : Token} {join : Located Join}
    {t : Located Token} (offends : Offends ts (front ++ words ++ gap) t) (solid : t.value ≠ .blank)
    (previous : WritesTerm words term) (separator : Boundary term.isGroup first gap (some join)) :
    Placement limit ts .termMissing t.span []
  | finalPlus {front words a b : List (Located Token)} {term : Term} {p : Span} (unfinished : Unfinished ts)
    (split : ts = front ++ words ++ (a ++ ⟨.plus, p⟩ :: b)) (previous : WritesTerm words term) (before : Gap a)
    (behind : Gap b) : Placement limit ts .termMissing p []
  | strayInGroup {before inner : List (Located Token)} {paren : Located Token} {x : Symbol} {p : Span}
    (offends : Offends ts before ⟨.symbol x, p⟩) (opened : Tokens.Open before paren inner) :
    Placement limit ts (.strayInGroup paren.span) p [paren.span]
  | malformed {words : List (Located Token)} {cause : Fault.Cause} {span : Span} (malformed : Malformed ts words cause)
    (marks : Marks words span) : Placement limit ts cause span []

/-! ### The spans of faults -/

theorem gap_reverse {gap : List (Located Token)} (h : Gap gap) : Gap gap.reverse := by
  cases h with
  | none => exact .none
  | blank s => exact .blank s

namespace Fault
variable {f : Fault} {ts before words gap rest : List (Located Token)} {first last t : Located Token} {n m : Nat}

theorem edge?_append_of_gap (hgap : Gap gap) (h : words.head? = some first) (solid : first.value ≠ .blank) :
    edge? (gap ++ words) = some first.span := by
  obtain ⟨words, rfl⟩ := List.head?_eq_some_iff.mp h
  have hblank : first.value.isBlank = false := by
    cases hv : first.value with
    | blank => exact absurd hv solid
    | integer | symbol | plus | minus | leftParen | rightParen => rfl
  cases hgap with
  | none => simp [edge?, hblank]
  | blank s =>
    have blank : Token.blank.isBlank = true := rfl
    simp [edge?, hblank, blank]

/-- Where tokens were read in vain the span is that of these, without the blank behind them. -/
theorem span_vain (split : ts = before ++ words ++ gap ++ rest) (start : f.start = before.length)
    (stop : f.stop = (before ++ words ++ gap).length) (hgap : Gap gap) (edges : Edges words first last) :
    f.span ts = first.span.union last.span := by
  have vain : (ts.take f.stop).drop f.start = words ++ gap := by
    rw [split, start, stop, List.take_left' rfl, List.append_assoc, List.drop_left' rfl]
  have head : (words ++ gap).head? = some first := by rw [List.head?_append, edges.front, Option.some_or]
  have front := edge?_append_of_gap Gap.none head edges.solid.1
  rw [List.nil_append] at front
  have back : edge? (words ++ gap).reverse = some last.span := by
    rw [List.reverse_append]
    exact edge?_append_of_gap (gap_reverse hgap) (by rw [List.head?_reverse, edges.back]) edges.solid.2
  simp only [span, vain, front, back]

theorem marks_vain (split : ts = before ++ words ++ gap ++ rest) (start : f.start = before.length)
    (stop : f.stop = (before ++ words ++ gap).length) (hgap : Gap gap) (edges : Edges words first last)
    (tiles : Tiles n m ts) : Marks words (f.span ts) := by
  refine ⟨first, last, edges, ?_⟩
  rw [split] at tiles
  obtain ⟨_, htiles, -⟩ := tiles.exists_of_append
  obtain ⟨_, htiles, -⟩ := htiles.exists_of_append
  obtain ⟨k, -, hwords⟩ := htiles.exists_of_append
  obtain ⟨hstart, hstop⟩ := edges.start_stop hwords
  have hle := (hwords.mem (List.mem_of_getLast? edges.back)).1
  have hle' := (hwords.mem (List.mem_of_head? edges.front)).2
  rw [span_vain split start stop hgap edges]
  exact Span.union_eq (hstart ▸ hle) (hstop ▸ hle')

theorem marks_words (split : ts = before ++ words ++ rest) (start : f.start = before.length)
    (stop : f.stop = (before ++ words).length) (edges : Edges words first last) (tiles : Tiles n m ts) :
    Marks words (f.span ts) :=
  have split : ts = before ++ words ++ [] ++ rest := by rw [split, List.append_nil]
  marks_vain split start (by rw [stop, List.append_nil]) .none edges tiles

theorem span_here (split : ts = before ++ t :: rest) (start : f.start = before.length) (stop : f.stop = before.length) :
    f.span ts = t.span := by
  simp [span, split, start, stop, edge?]

/-- At the end it is that of the last token that is no blank. -/
theorem span_end (split : ts = before ++ t :: gap) (start : f.start = ts.length) (stop : f.stop = ts.length)
    (hgap : Gap gap) (solid : t.value ≠ .blank) : f.span ts = t.span := by
  have back : edge? ts.reverse = some t.span := by
    rw [split, List.reverse_append, List.reverse_cons, List.append_assoc]
    exact edge?_append_of_gap (gap_reverse hgap) rfl solid
  simp [span, start, stop, edge?_eq_none_iff.mpr rfl, back]

end Fault

theorem GroupLead.solid {lead : List (Located Token)} {sign : Option (Located Sign)} {magnitude : Option (Located Int)}
    (h : GroupLead lead sign magnitude) : ∀ t ∈ lead, t.value ≠ .blank := by
  have signs : ∀ g : Sign, g.token ≠ .blank := fun g => by cases g <;> nofun
  cases h <;> simp [signs]

theorem WritesTerm.exists_edges {words : List (Located Token)} {term : Term} (h : WritesTerm words term) :
    ∃ first last, Edges words first last := by
  -- It ends with its symbol or its closing parenthesis, and a token that begins a term is no blank.
  obtain ⟨last, hlast, solid⟩ : ∃ last, words.getLast? = some last ∧ last.value ≠ .blank := by
    cases term with
    | cluster c =>
      obtain _ | ⟨x, s, counts, tie, terms⟩ := h
      obtain rfl := terms.eq_nil_iff.mpr rfl
      cases tie
      exact ⟨_, List.getLast?_concat .., nofun⟩
    | group g body =>
      obtain _ | _ | ⟨o, c, leads, before, content, behind, tie, terms⟩ := h
      obtain rfl := terms.eq_nil_iff.mpr rfl
      cases tie
      exact ⟨_, List.getLast?_concat .., nofun⟩
  rcases Terms.head h with ⟨rfl, -⟩ | ⟨first, rest, rfl, hfirst⟩
  · cases hlast
  · refine ⟨first, last, rfl, hlast, fun hblank => ?_, solid⟩
    rw [hblank] at hfirst
    cases hfirst

theorem Begun.exists_edges {before lead : List (Located Token)} (h : Begun before lead) :
    ∃ first last, Edges lead first last := by
  obtain ⟨hne, -, rest, sign, magnitude, leads⟩ := h
  have solid : ∀ t ∈ lead, t.value ≠ .blank := fun t ht => leads.solid t (List.mem_append_left rest ht)
  exact ⟨_, _, List.head?_eq_some_head hne, List.getLast?_eq_some_getLast hne, solid _ (List.head_mem hne),
    solid _ (List.getLast_mem hne)⟩

namespace Reader
variable {limit : Nat} {s : State} {ts before rest : List (Located Token)} {t : Located Token} {f : Fault} {n m : Nat}

theorem Behind.exists_edges {done : List Entry} {term : Term} {ws : List (Located Token)} (h : Behind done term ws)
    (paren : Span) : ∃ last, Edges (⟨.leftParen, paren⟩ :: ws) ⟨.leftParen, paren⟩ last := by
  obtain ⟨front, words, rfl, writes⟩ := h.exists_words
  obtain ⟨first, last, edges⟩ := writes.exists_edges
  have hne : words ≠ [] := fun hnil => by
    have hfront := edges.front
    rw [hnil] at hfront
    cases hfront
  refine ⟨last, rfl, ?_, nofun, edges.solid.2⟩
  rw [← List.cons_append, List.getLast?_append_of_ne_nil _ hne, edges.back]

/-- A reader at rest has read at most a blank behind the last term. -/
theorem At.exists_solid {offset : Nat} {inner : List (Located Token)} (h : At offset s.done s.stand inner)
    (rests : s.Rests) (paren : Span) :
    ∃ solid gap last, inner = solid ++ gap ∧ Gap gap ∧
      Edges (⟨.leftParen, paren⟩ :: solid) ⟨.leftParen, paren⟩ last := by
  rcases rests with hs | ⟨term, hs⟩ | ⟨term, blank, hs⟩
  · rw [hs] at h
    exact ⟨[], inner, _, rfl, h.2, rfl, rfl, nofun, nofun⟩
  · rw [hs] at h
    obtain ⟨last, edges⟩ := Behind.exists_edges h paren
    exact ⟨inner, [], last, (List.append_nil _).symm, .none, edges⟩
  · rw [hs] at h
    obtain ⟨ws, rfl, behind⟩ := h
    obtain ⟨last, edges⟩ := behind.exists_edges paren
    exact ⟨ws, _, last, rfl, .blank blank, edges⟩

/-! ### Placements -/

/-- The labels of a fault stand where its cause calls for them. -/
def Places (limit : Nat) (ts : List (Located Token)) (f : Fault) : Prop :=
  Placement limit ts f.cause (f.span ts) (f.cause.related.map (·.span))

theorem places_malformed {words : List (Located Token)} (h : Malformed ts words f.cause)
    (marks : Marks words (f.span ts)) : Places limit ts f := by
  have related : f.cause.related = [] := by
    generalize f.cause = cause at h
    cases h with
    | symbol _ _ why => exact why.related
    | paren => rfl
    | other _ _ _ _ last | line _ _ _ last => exact last.related
  rw [Places, related]
  exact .malformed h marks

/-! ### The end of a line -/

section Line
variable (reads : Reads s ts) (unfinished : Unfinished ts) (tiles : Tiles n m ts)
include reads unfinished tiles

theorem places_groupOpen {g : Frame} {fs : List Frame} (rests : s.Rests) (hs : s.frames = g :: fs) :
    Places limit ts ⟨.groupOpen, g.position, ts.length⟩ := by
  obtain ⟨outer, inner, rfl, position, closed, hat⟩ := reads.exists_open rests hs
  obtain ⟨solid, gap, last, rfl, hgap, edges⟩ := hat.exists_solid rests g.paren
  have hsplit : outer ++ ⟨.leftParen, g.paren⟩ :: (solid ++ gap) = outer ++ ⟨.leftParen, g.paren⟩ :: solid ++ gap := by
    simp
  have hclosed : Tokens.Closed solid := by
    have flat : Tokens.brackets (solid ++ gap) = Tokens.brackets solid := by
      rw [Tokens.brackets_append, hgap.brackets, List.append_nil]
    rwa [Tokens.Closed, flat] at closed
  rw [hsplit] at unfinished tiles ⊢
  have hall := (List.append_nil (outer ++ ⟨.leftParen, g.paren⟩ :: solid ++ gap)).symm
  have marks := Fault.marks_vain (f := ⟨.groupOpen, g.position, _⟩) hall position rfl hgap edges tiles
  exact .groupOpen unfinished rfl ⟨⟨outer, rfl⟩, rfl, hclosed⟩ hgap marks

theorem places_lead {l : Lead} (hs : s.stand = .lead l) : Places limit ts (l.cutOff ts.length) := by
  obtain ⟨formed, before, split, position, begun⟩ := reads.begun hs
  obtain ⟨first, last, edges⟩ := begun.exists_edges
  have hsplit : ts = before ++ l.words ++ [] := by rw [split, List.append_nil]
  refine places_malformed (.line begun unfinished split (formed.endsWith _)) ?_
  exact Fault.marks_words hsplit position (congrArg List.length split) edges tiles

omit tiles in
theorem places_finalPlus {last : Term} {join : Span}
    (hs : s.stand = .behindPlus last join ∨ s.stand = .behindPlusBlank last join) :
    Places limit ts ⟨.termMissing, ts.length, ts.length⟩ := by
  obtain ⟨front, words, a, b, p, split, writes, ha, hb, -⟩ := reads.exists_plus hs
  have hsplit : ts = front ++ words ++ a ++ ⟨.plus, p⟩ :: b := by rw [split, List.append_assoc (front ++ words)]
  rw [Places, Fault.span_end hsplit rfl rfl hb nofun]
  exact .finalPlus unfinished split writes ha hb

end Line

theorem places_of_finish (reads : Reads s ts) (hrun : run limit 0 Reader.start ts = .ok s)
    (h : finish ts.length s = .error f) (tiles : Tiles n m ts) : Places limit ts f := by
  have unfinished := reads.unfinished hrun
  unfold finish at h
  split at h
  · next l hs =>
    cases h
    exact places_lead reads unfinished tiles hs
  · next last join hs =>
    cases h
    exact places_finalPlus reads unfinished (Or.inl hs)
  · next last join hs =>
    cases h
    exact places_finalPlus reads unfinished (Or.inr hs)
  all_goals
    next hs =>
      split at h
      · cases h
      · next g fs hframes =>
        cases h
        exact places_groupOpen reads unfinished tiles (by simp [State.Rests, hs]) hframes

/-! ### Tokens that are not taken -/

theorem ne_tooDeep {cause : Fault.Cause} (h : cause.code = .unexpectedToken) : cause ≠ .tooDeep := by
  rintro rfl
  cases h

theorem ne_blank_of_spaced {p : Span} (h : Spaced (before ++ ⟨.blank, p⟩ :: t :: rest)) : t.value ≠ .blank :=
  fun ht => (List.isChain_append_cons_cons.mp h).2.1 ⟨rfl, ht⟩

namespace StopsAt
variable {cause : Fault.Cause} {l : Lead} {x : Symbol} {p : Span}

theorem places_touch {c : Cluster} (h : StopsAt limit before s t ⟨.joinMissing c.span, before.length, before.length⟩)
    (stand : s.stand = .behind (.cluster c)) (begins : t.value.BeginsCount) (tiles : Tiles n m (before ++ t :: rest)) :
    Places limit (before ++ t :: rest) ⟨.joinMissing c.span, before.length, before.length⟩ := by
  have offends := h.offends rest nofun
  obtain ⟨outer, inner, rfl, -, hat⟩ := h.reads
  rw [stand] at hat
  obtain ⟨front, words, rfl, writes⟩ := Behind.exists_words hat
  rw [Places, Fault.span_here rfl rfl rfl]
  rw [← List.append_assoc] at offends tiles ⊢
  obtain ⟨k, hbefore, hstart, -⟩ := tiles.exists_of_append
  obtain ⟨j, -, hwords⟩ := hbefore.exists_of_append
  have hspan : c.span = ⟨j, k⟩ := writes.span_eq hwords
  exact .joinMissing offends begins writes (by rw [hspan, hstart])

theorem places_stray {f : Fault} (h : StopsAt limit before s ⟨.symbol x, p⟩ f) (rests : s.Rests)
    (refused : stray before.length s = .error f) : Places limit (before ++ ⟨.symbol x, p⟩ :: rest) f := by
  unfold stray at refused
  split at refused
  · next outer =>
    cases refused
    rw [Places, Fault.span_here rfl rfl rfl]
    exact .trailing (h.offends rest nofun) (h.reads.closed rests outer)
  · next g fs hframes =>
    cases refused
    obtain ⟨outer, inner, split, -, closed, -⟩ := h.reads.exists_open rests hframes
    have opened : Tokens.Open before ⟨.leftParen, g.paren⟩ inner := ⟨⟨outer, split⟩, rfl, closed⟩
    rw [Places, Fault.span_here rfl rfl rfl]
    exact .strayInGroup (h.offends rest nofun) opened

theorem places_space {c : Cluster} {blank : Span}
    (h : StopsAt limit before s t ⟨.termMissing, before.length, before.length⟩)
    (stand : s.stand = .behindBlank (.cluster c) blank) (solid : t.value ≠ .blank) :
    Places limit (before ++ t :: rest) ⟨.termMissing, before.length, before.length⟩ := by
  have offends := h.offends rest nofun
  obtain ⟨outer, inner, rfl, -, hat⟩ := h.reads
  rw [stand] at hat
  obtain ⟨ws, rfl, behind⟩ := hat
  obtain ⟨front, words, rfl, writes⟩ := behind.exists_words
  have separator : Boundary false .minus [⟨.blank, blank⟩] (some ⟨.space, blank⟩) := .space blank rfl nofun nofun
  rw [Places, Fault.span_here rfl rfl rfl]
  rw [← List.append_assoc, ← List.append_assoc] at offends ⊢
  exact .termMissing offends solid writes separator

theorem places_plus {last : Term} {join : Span}
    (h : StopsAt limit before s t ⟨.termMissing, before.length, before.length⟩)
    (stand : s.stand = .behindPlus last join ∨ s.stand = .behindPlusBlank last join)
    (noBlank : s.stand = .behindPlus last join → t.value ≠ .blank) (spaced : Spaced (before ++ t :: rest)) :
    Places limit (before ++ t :: rest) ⟨.termMissing, before.length, before.length⟩ := by
  have offends := h.offends rest nofun
  obtain ⟨front, words, a, b, q, rfl, writes, ha, hb, touch⟩ := h.reads.exists_plus stand
  have separator : Boundary last.isGroup .minus (a ++ ⟨.plus, q⟩ :: b) (some ⟨.plus, cover q (a ++ b)⟩) := .plus q ha hb
  -- Behind the blank of a plus no second one can stand, as no two blanks of a line touch.
  have solid : t.value ≠ .blank := by
    cases hb with
    | none => exact noBlank (touch rfl)
    | blank r =>
      have spaced : Spaced (front ++ words ++ a ++ [⟨.plus, q⟩] ++ ⟨.blank, r⟩ :: t :: rest) := by simpa using spaced
      exact ne_blank_of_spaced spaced
  rw [Places, Fault.span_here rfl rfl rfl]
  exact .termMissing offends solid writes separator

theorem places_cluster (h : StopsAt limit before s ⟨.symbol x, p⟩ ⟨cause, l.position, before.length + 1⟩)
    (stand : s.stand = .lead l) (noCount : l.clusterCount = .error cause)
    (tiles : Tiles n m (before ++ ⟨.symbol x, p⟩ :: rest)) :
    Places limit (before ++ ⟨.symbol x, p⟩ :: rest) ⟨cause, l.position, before.length + 1⟩ := by
  have offends := h.offends rest (ne_tooDeep (code_of_clusterCount noCount))
  obtain ⟨formed, front, rfl, position, begun⟩ := h.reads.begun stand
  obtain ⟨first, last, edges⟩ := begun.exists_edges
  have edges' : Edges (l.words ++ [⟨.symbol x, p⟩]) first ⟨.symbol x, p⟩ :=
    ⟨by rw [List.head?_append, edges.front, Option.some_or], List.getLast?_concat .., edges.solid.1, nofun⟩
  have split : front ++ l.words ++ ⟨.symbol x, p⟩ :: rest = front ++ (l.words ++ [⟨.symbol x, p⟩]) ++ rest := by simp
  refine places_malformed (.symbol begun offends (formed.noCount noCount)) ?_
  exact Fault.marks_words split position (by simp [Nat.add_assoc]) edges' tiles

theorem places_group (h : StopsAt limit before s ⟨.leftParen, p⟩ ⟨cause, l.position, before.length⟩)
    (stand : s.stand = .lead l) (noMagnitude : l.magnitude = .error cause)
    (tiles : Tiles n m (before ++ ⟨.leftParen, p⟩ :: rest)) :
    Places limit (before ++ ⟨.leftParen, p⟩ :: rest) ⟨cause, l.position, before.length⟩ := by
  have offends := h.offends rest (ne_tooDeep (code_of_magnitude noMagnitude))
  obtain ⟨formed, front, rfl, position, begun⟩ := h.reads.begun stand
  obtain ⟨first, last, edges⟩ := begun.exists_edges
  obtain ⟨rfl, g, q, r, hwords⟩ := formed.noMagnitude noMagnitude
  have marks := Fault.marks_words (f := ⟨.magnitudeMissing, l.position, _⟩) rfl position rfl edges tiles
  rw [hwords] at begun offends marks ⊢
  exact places_malformed (.paren begun offends) marks

theorem places_cutOff (h : StopsAt limit before s t (l.cutOff before.length)) (stand : s.stand = .lead l)
    (noSymbol : ∀ x, t.value ≠ .symbol x) (noParen : t.value ≠ .leftParen) (tiles : Tiles n m (before ++ t :: rest)) :
    Places limit (before ++ t :: rest) (l.cutOff before.length) := by
  have offends := h.offends rest (ne_tooDeep (code_cutOff l))
  obtain ⟨formed, front, rfl, position, begun⟩ := h.reads.begun stand
  obtain ⟨first, last, edges⟩ := begun.exists_edges
  refine places_malformed (.other begun offends noSymbol noParen (formed.endsWith _)) ?_
  exact Fault.marks_words rfl position rfl edges tiles

theorem places {f : Fault} (h : StopsAt limit before s t f) (admissible : Admissible (before ++ t :: rest))
    (tiles : Tiles n m (before ++ t :: rest)) : Places limit (before ++ t :: rest) f := by
  cases step_refuses h.stops with
  | full paren full =>
    rw [Places, Fault.span_token]
    exact .tooDeep (firstBeyond_of_run h.takes paren full rest)
  | touch c stand begins => exact h.places_touch stand begins tiles
  | close rests outer paren =>
    obtain ⟨v, p⟩ := t
    obtain rfl : v = .rightParen := paren
    rw [Places, Fault.span_here rfl rfl rfl]
    exact .strayClose (h.offends rest nofun) (h.reads.closed rests outer)
  | symbol x rests token joins refused =>
    obtain ⟨v, p⟩ := t
    obtain rfl : v = .symbol x := token
    exact h.places_stray rests refused
  | space c blank x stand token => exact h.places_space stand (by rw [token]; nofun)
  | plus last join stand noBlank => exact h.places_plus stand noBlank admissible.spaced
  | cluster l x stand token noCount =>
    obtain ⟨v, p⟩ := t
    obtain rfl : v = .symbol x := token
    exact h.places_cluster stand noCount tiles
  | group l stand paren noMagnitude =>
    obtain ⟨v, p⟩ := t
    obtain rfl : v = .leftParen := paren
    exact h.places_group stand noMagnitude tiles
  | cutOff l stand noSymbol noParen => exact h.places_cutOff stand noSymbol noParen tiles
  | huge n token beyond =>
    -- No token of a line is beyond the words.
    have fits : t.value.InRange := admissible.bounded t (by simp)
    rw [token] at fits
    exact absurd fits (Nat.not_le_of_lt beyond)
  | repeated last blank stand token =>
    have spaced := admissible.spaced
    rw [List.append_cons] at spaced
    exact absurd token (h.ne_blank spaced.left_of_append stand)

end StopsAt

end Reader

theorem places_of_ofTokens {limit n m : Nat} {ts : List (Located Token)} {f : Fault} (admissible : Admissible ts)
    (tiles : Tiles n m ts) (h : ofTokens limit ts = .error f) :
    Placement limit ts f.cause (f.span ts) (f.cause.related.map (·.span)) := by
  rcases Reader.exists_of_ofTokens_error admissible h with ⟨s, hrun, reads, hfinish⟩ | ⟨before, t, rest, s, rfl, stops⟩
  · exact Reader.places_of_finish reads hrun hfinish tiles
  · exact stops.places admissible tiles

/-! ### Marks in a line -/

theorem Offends.mem {ts before : List (Located Token)} {t : Located Token} (h : Offends ts before t) : t ∈ ts := by
  obtain ⟨rest, rfl⟩ := h.here
  exact List.mem_append_right before List.mem_cons_self

theorem Malformed.isInfix {ts words : List (Located Token)} {cause : Fault.Cause} (h : Malformed ts words cause) :
    words <:+: ts := by
  cases h with
  | @symbol before _ _ _ _ _ offends =>
    obtain ⟨rest, rfl⟩ := offends.here
    exact ⟨before, rest, by simp⟩
  | paren _ offends | other _ offends =>
    obtain ⟨rest, rfl⟩ := offends.here
    exact ⟨_, _, rfl⟩
  | line _ _ split =>
    rw [split]
    exact List.suffix_append .. |>.isInfix

/-- The span is of some glyphs of the line, of which neither the first nor the last is blank. -/
def Marked (line : List Char) (span : Span) : Prop :=
  ∃ w c d, TextAt line span w ∧ w.head? = some c ∧ w.getLast? = some d ∧ Glyph.kind c ≠ .blank ∧ Glyph.kind d ≠ .blank

section Marked
variable {line v : List Char} {span whole : Span} {ts words : List (Located Token)} {t : Located Token}

theorem exists_head?_of_textsOf {w : List Char} (h : Spelling.TextsOf (t :: ts) w) (solid : t.value ≠ .blank) :
    ∃ c, w.head? = some c ∧ Glyph.kind c ≠ .blank := by
  obtain ⟨u, _, rfl, text, -⟩ := h.exists_of_cons
  obtain ⟨hne, hu⟩ := text.solid solid
  obtain ⟨c, u, rfl⟩ := List.exists_cons_of_ne_nil hne
  exact ⟨c, rfl, hu c List.mem_cons_self⟩

theorem exists_getLast?_of_textsOf {w : List Char} (h : Spelling.TextsOf (ts ++ [t]) w) (solid : t.value ≠ .blank) :
    ∃ c, w.getLast? = some c ∧ Glyph.kind c ≠ .blank := by
  obtain ⟨_, u, rfl, -, last⟩ := h.exists_of_append
  obtain ⟨hne, hu⟩ := last.exists_of_singleton.solid solid
  refine ⟨u.getLast hne, ?_, hu _ (List.getLast_mem hne)⟩
  rw [List.getLast?_append_of_ne_nil _ hne, List.getLast?_eq_some_getLast hne]

theorem Marks.marked (marks : Marks words span) (part : words <:+: ts) (sits : Sits line whole v ts) :
    Marked line span := by
  obtain ⟨first, last, edges, rfl⟩ := marks
  obtain ⟨_, w, sits⟩ := sits.exists_of_isInfix part
  obtain ⟨hstart, hstop⟩ := edges.start_stop sits.tiles
  obtain ⟨behind, hbehind⟩ := List.head?_eq_some_iff.mp edges.front
  obtain ⟨c, hhead, hc⟩ := exists_head?_of_textsOf (hbehind ▸ sits.textsOf) edges.solid.1
  obtain ⟨before, hbefore⟩ := List.getLast?_eq_some_iff.mp edges.back
  obtain ⟨d, hlast, hd⟩ := exists_getLast?_of_textsOf (hbefore ▸ sits.textsOf) edges.solid.2
  refine ⟨w, c, d, ?_, hhead, hlast, hc, hd⟩
  rw [hstart, hstop]
  exact sits.textAt

theorem marked_of_mem (ht : t ∈ ts) (solid : t.value ≠ .blank) (sits : Sits line whole v ts) : Marked line t.span :=
  have marks : Marks [t] t.span := ⟨t, t, ⟨rfl, rfl, solid, solid⟩, rfl⟩
  marks.marked (List.singleton_infix_iff t ts |>.mpr ht) sits

theorem WritesTerm.marked {term : Term} (h : WritesTerm words term) (part : words <:+: ts)
    (sits : Sits line whole v ts) : Marked line term.span := by
  obtain ⟨first, last, edges⟩ := h.exists_edges
  obtain ⟨_, _, hwords⟩ := sits.exists_of_isInfix part
  obtain ⟨hstart, hstop⟩ := edges.start_stop hwords.tiles
  have marks : Marks words term.span := ⟨first, last, edges, by rw [h.span_eq hwords.tiles, hstart, hstop]⟩
  exact marks.marked part sits

theorem Placement.marked {limit : Nat} {cause : Fault.Cause} {primary : Span} {others : List Span}
    (h : Placement limit ts cause primary others) (sits : Sits line whole v ts) :
    ∀ span ∈ primary :: others, Marked line span := by
  rw [List.forall_mem_cons]
  cases h with
  | tooDeep beyond =>
    obtain ⟨rest, rfl⟩ := beyond.here
    exact ⟨marked_of_mem (by simp) (by rw [beyond.paren]; nofun) sits, nofun⟩
  | strayClose offends | trailing offends => exact ⟨marked_of_mem offends.mem nofun sits, nofun⟩
  | groupOpen _ split opened _ marks =>
    obtain ⟨outer, rfl⟩ := opened.split
    exact ⟨marks.marked ⟨outer, _, split.symm⟩ sits, nofun⟩
  | joinMissing offends begins previous =>
    have solid := begins.ne_blank
    obtain ⟨rest, rfl⟩ := offends.here
    have part := previous.marked ⟨_, _, rfl⟩ sits
    exact ⟨marked_of_mem offends.mem solid sits, List.forall_mem_singleton.mpr part⟩
  | termMissing offends solid => exact ⟨marked_of_mem offends.mem solid sits, nofun⟩
  | finalPlus _ split =>
    exact ⟨marked_of_mem (t := ⟨.plus, primary⟩) (by simp [split]) nofun sits, nofun⟩
  | @strayInGroup _ _ paren _ _ offends opened =>
    obtain ⟨outer, rfl⟩ := opened.split
    obtain ⟨rest, rfl⟩ := offends.here
    have related := marked_of_mem (t := paren) (by simp) (by rw [opened.paren]; nofun) sits
    exact ⟨marked_of_mem offends.mem nofun sits, List.forall_mem_singleton.mpr related⟩
  | malformed malformed marks => exact ⟨marks.marked malformed.isInfix sits, nofun⟩

end Marked

/-! ### Lines that are no row -/

/-- The diagnostic of a cause: of its labels only the first one is primary, and each one marks glyphs of the line and
    stands where the cause calls for it. -/
structure Labelled (limit : Nat) (line : List Char) (ts : List (Located Token)) (cause : Fault.Cause) (d : Diagnostic)
    (primary : Diagnostic.Label) (others : List Diagnostic.Label) : Prop where
  code : d.code = some cause.code
  message : d.message = cause.message
  labels : d.labels = primary :: others
  first : primary.isPrimary = true
  only : ∀ l ∈ others, l.isPrimary = false
  marked : ∀ l ∈ d.labels, Marked line l.span
  placed : Placement limit ts cause primary.span (others.map (·.span))

theorem Fault.Cause.related_secondary (cause : Cause) : ∀ l ∈ cause.related, l.isPrimary = false := by
  cases cause <;> simp [related]

/-- A line that is read into tokens but into no row has one diagnostic, with its labels where its cause calls for
    them. -/
theorem labelled_of_ofLine {limit : Nat} {line : String} {ts : List (Located Token)} {report : Diagnostic.Report}
    (tokens : Token.ofLine line = .ok ts) (h : ofLine limit line = .error report) :
    ∃ cause d primary others, report = [d] ∧ Labelled limit line.toList ts cause d primary others := by
  have hchars := Token.ofChars_of_ofLine tokens
  have sits := Sits.of_line (Token.readFrom_of_ofChars hchars)
  simp only [ofLine, tokens] at h
  cases hf : ofTokens limit ts with
  | ok row =>
    rw [hf] at h
    cases h
  | error f =>
    rw [hf] at h
    cases h
    have placed := places_of_ofTokens (Token.admissible_of_ofChars hchars) sits.tiles hf
    refine ⟨f.cause, f.diagnostic ts, _, _, rfl, rfl, rfl, rfl, rfl, f.cause.related_secondary, fun l hl => ?_, placed⟩
    have spans : (f.diagnostic ts).labels.map (·.span) = f.span ts :: f.cause.related.map (·.span) := rfl
    exact placed.marked sits l.span (spans ▸ List.mem_map_of_mem hl)

/-- A symbol that neither continues nor closes the second of two groups. -/
theorem labelled_of_symbol_in_group :
    let line := "(2k)(3◆◆"
    let ts : List (Located Token) := [⟨.leftParen, ⟨0, 1⟩⟩, ⟨.integer 2, ⟨1, 2⟩⟩,
      ⟨.symbol ⟨'k', by decide +kernel⟩, ⟨2, 3⟩⟩, ⟨.rightParen, ⟨3, 4⟩⟩, ⟨.leftParen, ⟨4, 5⟩⟩, ⟨.integer 3, ⟨5, 6⟩⟩,
      ⟨.symbol ⟨'◆', by decide +kernel⟩, ⟨6, 9⟩⟩, ⟨.symbol ⟨'◆', by decide +kernel⟩, ⟨9, 12⟩⟩]
    let report : Diagnostic.Report := [(⟨.strayInGroup ⟨4, 5⟩, 7, 7⟩ : Fault).diagnostic ts]
    Token.ofLine line = .ok ts ∧ ofLine 1 line = .error report ∧
      ∃ cause d primary others, report = [d] ∧ Labelled 1 line.toList ts cause d primary others := by
  intro line ts report
  have tokens : Token.ofLine line = .ok ts := by decide +kernel
  have refused : ofLine 1 line = .error report := by decide +kernel
  exact ⟨tokens, refused, labelled_of_ofLine tokens refused⟩

end Dotwork.Row
