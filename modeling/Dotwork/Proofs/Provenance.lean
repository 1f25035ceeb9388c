import Dotwork.Proofs.Conservation
import Dotwork.Proofs.Stretches

/-!
# Where the parts of a row come from

The spans of a row are faithful to the line that it was read from. At every level a term is what its own text says
when it is read alone, the parts of a group stand where their spans say, and what is between the terms is a join or
blank.
-/

namespace Dotwork

/-! ### Spans -/

theorem Span.union_eq {n m j k : Nat} (hstart : n ≤ j) (hstop : k ≤ m) : Span.union ⟨n, k⟩ ⟨j, m⟩ = ⟨n, m⟩ :=
  congrArg₂ Span.mk (Nat.min_eq_left hstart) (Nat.max_eq_right hstop)

namespace Row
variable {n m : Nat}

theorem startSpan_of_tiles {lead rest : List (Located Token)} {v : Token} {s : Span}
    (h : Tiles n m (lead ++ ⟨v, s⟩ :: rest)) : (startSpan lead s).start = n ∧ (startSpan lead s).stop ≤ m := by
  cases lead with
  | nil => exact ⟨h.1, (h.mem List.mem_cons_self).2⟩
  | cons t lead => exact ⟨h.1, (h.mem List.mem_cons_self).2⟩

/-- The span of a term is what its tokens take up. -/
theorem WritesTerm.span_eq {words : List (Located Token)} {t : Term} (h : WritesTerm words t) (tiles : Tiles n m words) :
    t.span = ⟨n, m⟩ := by
  cases t with
  | cluster c =>
    obtain _ | @⟨lead, gap, next, _, _, _, x, s, counts, tie, terms⟩ := h
    obtain rfl := terms.eq_nil_iff.mpr rfl
    cases tie
    obtain ⟨hstart, hstop⟩ := startSpan_of_tiles tiles
    have hs := (tiles.mem (x := ⟨.symbol x, s⟩) (by simp)).1
    have hlast : s.stop = m := Tiles.stop_of_concat tiles
    simp only [Term.span, Span.union, Span.mk.injEq]
    simp only at hs
    omega
  | group head body =>
    obtain _ | _ | @⟨lead, a, inner, b, gap, next, _, _, _, _, _, o, c, leads, before, content, behind, tie, terms⟩ := h
    obtain rfl := terms.eq_nil_iff.mpr rfl
    cases tie
    have hlast : c.stop = m := Tiles.stop_of_concat tiles
    have ho := tiles.mem (x := ⟨.leftParen, o⟩) (by simp)
    have hc := (tiles.mem (x := ⟨.rightParen, c⟩) (by simp)).1
    rw [List.append_assoc] at tiles
    obtain ⟨hstart, hstop⟩ := startSpan_of_tiles tiles
    simp only [Term.span, Span.union, Span.mk.injEq]
    simp only at ho hc
    omega

theorem Boundary.span_eq {closed : Bool} {first : Token} {gap : List (Located Token)} {join : Located Join}
    (h : Boundary closed first gap (some join)) (tiles : Tiles n m gap) : join.span = ⟨n, m⟩ := by
  cases h with
  | plus p before behind =>
    obtain ⟨start, stop⟩ := p
    cases before <;> cases behind <;>
      simp only [Tiles, cover, Span.union, List.nil_append, List.cons_append, List.append_nil, List.foldl_cons,
        List.foldl_nil, Span.mk.injEq] at tiles ⊢ <;> omega
  | space s =>
    obtain ⟨hstart, -, hstop⟩ := tiles
    rw [← hstart, ← hstop]

theorem Terms.ordered {ts : List (Located Token)} {entries : List Entry} (h : Terms ts (ofList entries))
    (tiles : Tiles n m ts) :
    (∀ e ∈ entries, n ≤ e.term.span.start ∧ e.term.span.stop ≤ m) ∧
      entries.Pairwise fun a b => a.term.span.stop ≤ b.term.span.start := by
  induction entries generalizing ts n with
  | nil => exact ⟨nofun, .nil⟩
  | cons e entries ih =>
    obtain ⟨words, gap, next, rfl, writes, -, terms⟩ := h.exists_of_cons
    obtain ⟨k, hfront, hnext⟩ := tiles.exists_of_append
    obtain ⟨j, hwords, hgap⟩ := hfront.exists_of_append
    obtain ⟨within, ordered⟩ := ih terms hnext
    rw [List.forall_mem_cons, List.pairwise_cons, writes.span_eq hwords]
    have hle := hwords.le
    have hgap := hgap.le
    have hnext := hnext.le
    refine ⟨⟨⟨Nat.le_refl n, by simp only; omega⟩, fun f hf => ?_⟩, fun f hf => ?_, ordered⟩
    · have := within f hf
      omega
    · exact Nat.le_trans hgap (within f hf).1

end Row

/-! ### Groups -/

/-- The side of a group that a glyph is. -/
def Glyph.bracket? (c : Char) : Option Bracket :=
  if c = '(' then some .opening else if c = ')' then some .closing else none

theorem Glyph.bracket?_eq_none {c : Char} (h : kind c ≠ .paren) : bracket? c = none := by
  obtain ⟨hopen, hclose⟩ := not_or.mp (kind_eq_paren_iff.not.mp h)
  rw [bracket?, if_neg hopen, if_neg hclose]

theorem Spelling.TextsOf.brackets {ts : List (Located Token)} {w : List Char} (h : TextsOf ts w) :
    w.filterMap Glyph.bracket? = Tokens.brackets ts := by
  have flat : ∀ {v : List Char} {k : Glyph.Kind}, k ≠ .paren → (∀ c ∈ v, Glyph.kind c = k) →
      v.filterMap Glyph.bracket? = [] := fun hk hv =>
    List.filterMap_eq_nil_iff.mpr fun c hc => Glyph.bracket?_eq_none (hv c hc ▸ hk)
  have text : ∀ {t : Token} {v : List Char}, TextOf t v → v.filterMap Glyph.bracket? = t.bracket?.toList := fun ht => by
    cases ht with
    | zero | plus | minus | leftParen | rightParen => rfl
    | natural pos natural =>
      obtain ⟨-, digits⟩ := natural
      exact flat (k := .digit) (by decide) digits
    | symbol x => exact flat (k := .symbol) (by decide) fun c hc => List.mem_singleton.mp hc ▸ x.kind_eq
    | blank some blanks => exact flat (k := .blank) (by decide) blanks
  induction h with
  | nil => rfl
  | @cons t ts w v ht _ ih =>
    rw [List.filterMap_append, text ht, ih, Tokens.brackets, Tokens.brackets]
    cases hb : t.value.bracket? <;> simp [hb]

/-- The text of a magnitude: digits, with a minus in front where they are negated. -/
inductive Literal : List Char → Int → Prop
  | plain {w : List Char} (digits : IsRun .digit w) : Literal w (Nat.ofDigitChars 10 w 0 : Nat)
  | negated {w : List Char} (digits : IsRun .digit w) : Literal ('-' :: w) (-(Nat.ofDigitChars 10 w 0 : Nat))

/-- A sign is all that stands between two bytes of a line, or there is none and nothing between them. -/
def SignAt (line : List Char) (n k : Nat) : Option (Located Sign) → Prop
  | none => k = n
  | some ⟨g, p⟩ => p = ⟨n, k⟩ ∧ TextAt line p [g.char]

/-- So is a magnitude. -/
def MagnitudeAt (line : List Char) (n k : Nat) : Option (Located Int) → Prop
  | none => k = n
  | some ⟨m, p⟩ => p = ⟨n, k⟩ ∧ ∃ w, TextAt line p w ∧ Literal w m

/-- A group stands in a line as its spans say: its sign, its magnitude and its parentheses, each directly behind the
    one before, and the parentheses are partners. -/
def GroupAt (line : List Char) (h : Head) : Prop :=
  ∃ k j inner, SignAt line h.span.start k h.sign ∧ MagnitudeAt line k j h.magnitude ∧ h.parens = ⟨j, h.span.stop⟩ ∧
    TextAt line h.parens ('(' :: inner ++ [')']) ∧ Bracket.Balanced (inner.filterMap Glyph.bracket?)

namespace Sits
variable {line w : List Char} {span : Span}

theorem literal {n : Nat} {p : Span} (h : Sits line span w [⟨.integer n, p⟩]) :
    p = span ∧ IsRun .digit w ∧ Nat.ofDigitChars 10 w 0 = n := by
  obtain ⟨hspan, reads⟩ := h.of_singleton
  generalize ht : Token.integer n = t at reads
  cases reads with
  | integer digits fits =>
    cases ht
    exact ⟨hspan, digits, rfl⟩
  | blank => cases ht
  | single calls =>
    subst ht
    exact absurd rfl ((Token.single_ne (Lexeme.single_eq_ok_iff.mpr calls)).1 n)

theorem sign {g : Sign} {p : Span} (h : Sits line span w [⟨g.token, p⟩]) : p = span ∧ TextAt line span [g.char] :=
  ⟨h.of_singleton.1, Spelling.textOf_sign h.textsOf.exists_of_singleton ▸ h.textAt⟩

theorem groupLead {lead : List (Located Token)} {sign : Option (Located Sign)} {magnitude : Option (Located Int)}
    (h : Sits line span w lead) (leads : Row.GroupLead lead sign magnitude) :
    ∃ k, SignAt line span.start k sign ∧ MagnitudeAt line k span.stop magnitude := by
  cases leads with
  | bare => exact ⟨span.start, rfl, h.tiles.symm⟩
  | sign g p =>
    obtain ⟨rfl, htext⟩ := h.sign
    exact ⟨p.stop, ⟨rfl, htext⟩, rfl⟩
  | magnitude n p =>
    obtain ⟨rfl, digits, rfl⟩ := h.literal
    exact ⟨p.start, rfl, rfl, w, h.textAt, .plain digits⟩
  | signed g n p q =>
    obtain ⟨k, _, v, rfl, hsign, hinteger⟩ := h.exists_of_cons
    obtain ⟨rfl, htext⟩ := hsign.sign
    obtain ⟨rfl, digits, rfl⟩ := hinteger.literal
    exact ⟨k, ⟨rfl, htext⟩, rfl, v, hinteger.textAt, .plain digits⟩
  | negated g n p m q =>
    obtain ⟨k, _, v, rfl, hsign, hrest⟩ := h.exists_of_cons
    obtain ⟨rfl, htext⟩ := hsign.sign
    have hminus := hrest.textAt
    obtain ⟨j, _, v, rfl, hm, hinteger⟩ := hrest.exists_of_cons
    obtain ⟨rfl, digits, rfl⟩ := hinteger.literal
    obtain rfl := hm.of_singleton.1
    obtain ⟨⟩ := hm.textsOf.exists_of_singleton
    have hunion := Span.union_eq hm.tiles.le hinteger.tiles.le
    exact ⟨k, ⟨rfl, htext⟩, hunion, '-' :: v, by rw [hunion]; exact hminus, .negated digits⟩

/-- The parts of a group sit side by side, and its body in its parentheses. -/
theorem group {words : List (Located Token)} {head : Head} {body : Row} (h : Sits line span w words)
    (writes : Row.WritesTerm words (.group head body)) :
    GroupAt line head ∧
      ∃ inner ts, Sits line ⟨head.parens.start + 1, head.parens.stop - 1⟩ inner ts ∧ Row.Derives ts body := by
  have hspan : head.span = span := writes.span_eq h.tiles
  obtain _ | _ | @⟨lead, a, ws, b, gap, next, _, _, _, _, _, o, c, leads, before, content, behind, tie, terms⟩ := writes
  obtain rfl := terms.eq_nil_iff.mpr rfl
  cases tie
  rw [List.append_assoc] at h
  obtain ⟨k, _, _, rfl, hlead, hparens⟩ := h.exists_of_append
  obtain ⟨j, hsign, hmagnitude⟩ := hlead.groupLead leads
  have htext := hparens.textAt
  obtain ⟨n, _, _, rfl, hopen, hrest⟩ := hparens.exists_of_cons
  obtain ⟨m, inner, _, rfl, hbody, hclose⟩ := hrest.exists_of_append
  have derives : Row.Derives (a ++ ws ++ b) body := ⟨a, ws, b, rfl, before, content, behind⟩
  have balanced : Bracket.Balanced (inner.filterMap Glyph.bracket?) := by
    rw [hbody.textsOf.brackets, derives.agrees.brackets]
    exact body.level_events 0
  obtain ⟨rfl, -⟩ := hopen.of_singleton
  obtain ⟨rfl, -⟩ := hclose.of_singleton
  obtain ⟨⟩ := hopen.textsOf.exists_of_singleton
  obtain ⟨⟩ := hclose.textsOf.exists_of_singleton
  have hparens := Span.union_eq (Nat.le_trans hopen.tiles.le hbody.tiles.le) (Nat.le_trans hbody.tiles.le hclose.tiles.le)
  have hfirst : n = k + 1 := hopen.textAt.stop_eq
  have hlast : span.stop = m + 1 := hclose.textAt.stop_eq
  refine ⟨⟨j, k, inner, by rw [hspan]; exact hsign, hmagnitude, by rw [hspan]; exact hparens, ?_, balanced⟩, inner, _,
    ?_, derives⟩
  · simp only [hparens]
    exact htext
  · simp only [hparens]
    rw [hlast, Nat.add_sub_cancel, ← hfirst]
    exact hbody

end Sits

/-! ### Levels -/

/-- The rows of a line with the span that each has to itself: the whole line, and for the body of a group what is
    between the parentheses. -/
inductive Level (line : String) (row : Row) : Span → Row → Prop
  | line : Level line row ⟨0, line.utf8ByteSize⟩ row
  | body {span : Span} {outer body : Row} {h : Head} {join : Option (Located Join)} (level : Level line row span outer)
    (mem : ⟨.group h body, join⟩ ∈ outer.toList) : Level line row ⟨h.parens.start + 1, h.parens.stop - 1⟩ body

/-- The spans of a row are faithful to its line. -/
structure Faithful (limit : Nat) (line : List Char) (span : Span) (row : Row) : Prop where
  term : ∀ e ∈ row.toList, ∃ w, w ≠ [] ∧ TextAt line e.term.span w ∧
    Row.ofLine limit (String.ofList w) = .ok (.cons ⟨e.term.relocate (· - e.term.span.start), none⟩ .nil)
  group : ∀ h body join, ⟨.group h body, join⟩ ∈ row.toList → GroupAt line h
  ordered : row.toList.Pairwise fun a b => a.term.span.stop ≤ b.term.span.start
  between : ∀ front a b back, row.toList = front ++ a :: b :: back →
    match a.join with
    | some join => join.span = ⟨a.term.span.stop, b.term.span.start⟩
    | none => BlankAt line ⟨a.term.span.stop, b.term.span.start⟩
  before : ∀ a back, row.toList = a :: back → BlankAt line ⟨span.start, a.term.span.start⟩
  behind : ∀ front a, row.toList = front ++ [a] → BlankAt line ⟨a.term.span.stop, span.stop⟩
  empty : row.toList = [] → BlankAt line span

section Level
variable {line : List Char} {limit : Nat} {span : Span} {row : Row}

/-- The tokens of a row sit in a line at a span. -/
def SitsAt (line : List Char) (span : Span) (row : Row) : Prop :=
  ∃ w ts, Sits line span w ts ∧ Row.Derives ts row

/-- An entry sits where its span says, and directly behind it what ties it to the terms behind. -/
theorem SitsAt.exists_of_toList {front back : List Entry} {e : Entry} (h : SitsAt line span row)
    (hsplit : row.toList = front ++ e :: back) :
    ∃ before words gap next b k u w v x,
      (Sits line ⟨span.start, e.term.span.start⟩ u before ∧ (front = [] → Row.Gap before)) ∧
      (Sits line e.term.span w words ∧ Row.WritesTerm words e.term) ∧
      (Sits line ⟨e.term.span.stop, k⟩ v gap ∧ Row.Tie e.term.isGroup gap e.join next) ∧
      Sits line ⟨k, span.stop⟩ x (next ++ b) ∧ Row.Terms next (.ofList back) ∧ Row.Gap b := by
  obtain ⟨_, _, sits, a, ws, b, rfl, ha, terms, hb⟩ := h
  obtain ⟨before, words, gap, next, rfl, hfront, writes, tie, terms⟩ := terms.exists_of_toList hsplit
  have hall : a ++ (before ++ words ++ gap ++ next) ++ b = (a ++ before) ++ (words ++ (gap ++ (next ++ b))) := by simp
  rw [hall] at sits
  obtain ⟨n, u, _, -, hbefore, hrest⟩ := sits.exists_of_append
  obtain ⟨m, w, _, -, hwords, hrest⟩ := hrest.exists_of_append
  obtain ⟨k, v, x, -, hgap, hnext⟩ := hrest.exists_of_append
  have hspan : e.term.span = ⟨n, m⟩ := writes.span_eq hwords.tiles
  rw [hspan]
  refine ⟨a ++ before, words, gap, next, b, k, u, w, v, x, ⟨hbefore, fun h => ?_⟩, ⟨hwords, writes⟩, ⟨hgap, tie⟩, hnext,
    terms, hb⟩
  rw [hfront h, List.append_nil]
  exact ha

theorem SitsAt.exists_text {e : Entry} (h : SitsAt line span row) (fits : row.nesting ≤ limit) (he : e ∈ row.toList) :
    ∃ w, w ≠ [] ∧ TextAt line e.term.span w ∧
      Row.ofLine limit (String.ofList w) = .ok (.cons ⟨e.term.relocate (· - e.term.span.start), none⟩ .nil) := by
  obtain ⟨front, back, hsplit⟩ := List.append_of_mem he
  obtain ⟨_, words, _, _, _, _, _, w, _, _, -, ⟨sits, writes⟩, -⟩ := h.exists_of_toList hsplit
  have mono : Monotone (· - e.term.span.start) := fun _ _ h => Nat.sub_le_sub_right h _
  -- The tokens of the term alone, moved to the start of its text, write the term alone.
  have derives : Row.Derives (words.map (·.relocate (· - e.term.span.start)))
      ((Row.cons ⟨e.term, none⟩ .nil).relocate (· - e.term.span.start)) :=
    ⟨[], _, [], (List.append_nil _).symm, .none, Row.Terms.relocate mono writes, .none⟩
  have fits : ((Row.cons ⟨e.term, none⟩ .nil).relocate (· - e.term.span.start)).nesting ≤ limit := by
    have hnesting : e.term.nesting ≤ row.nesting := Row.nesting_le_of_mem he
    rw [Row.nesting_relocate, Row.nesting_cons, Row.nesting, Nat.max_zero]
    exact Nat.le_trans hnesting fits
  refine ⟨w, ?_, sits.textAt, ?_⟩
  · rintro rfl
    have hne : words ≠ [] := fun hnil => by
      have hempty := Row.isEmpty_cons ⟨e.term, none⟩ .nil
      rw [writes.eq_nil_iff.mp hnil] at hempty
      cases hempty
    have hstop := sits.textAt.stop_eq
    exact Nat.ne_of_gt (sits.tiles.lt hne) hstop
  · have hline : Row.ofLine limit (String.ofList w) = .ok _ :=
      Row.ofLine_of_derives (by rw [String.toList_ofList]; exact sits.reads) derives fits
    rwa [Row.relocate_cons] at hline

theorem SitsAt.body {h : Head} {body : Row} {join : Option (Located Join)} (sits : SitsAt line span row)
    (mem : ⟨.group h body, join⟩ ∈ row.toList) :
    GroupAt line h ∧ SitsAt line ⟨h.parens.start + 1, h.parens.stop - 1⟩ body := by
  obtain ⟨front, back, hsplit⟩ := List.append_of_mem mem
  obtain ⟨_, words, _, _, _, _, _, w, _, _, -, ⟨hwords, writes⟩, -⟩ := sits.exists_of_toList hsplit
  obtain ⟨group, inner, ts, hinner, derives⟩ := hwords.group writes
  exact ⟨group, inner, ts, hinner, derives⟩

theorem SitsAt.between {front back : List Entry} {a b : Entry} (h : SitsAt line span row)
    (hsplit : row.toList = front ++ a :: b :: back) :
    match a.join with
    | some join => join.span = ⟨a.term.span.stop, b.term.span.start⟩
    | none => BlankAt line ⟨a.term.span.stop, b.term.span.start⟩ := by
  obtain ⟨_, _, gap, next, c, k, _, _, _, _, -, -, ⟨hgap, tie⟩, hnext, terms, -⟩ := h.exists_of_toList hsplit
  -- The next term begins where the gap ends.
  change Row.Terms _ (Row.cons b (.ofList back)) at terms
  obtain ⟨words, gap', next', rfl, writes, -, -⟩ := terms.exists_of_cons
  rw [List.append_assoc, List.append_assoc] at hnext
  obtain ⟨m, _, _, -, hwords, -⟩ := hnext.exists_of_append
  have hspan : b.term.span = ⟨k, m⟩ := writes.span_eq hwords.tiles
  rw [hspan]
  generalize words ++ gap' ++ next' = all at tie
  generalize a.join = join at tie ⊢
  cases tie with
  | last => exact hgap.blankAt .none
  | next boundary =>
    cases join with
    | some join => exact boundary.span_eq hgap.tiles
    | none =>
      cases boundary with
      | touch _ _ gap => exact hgap.blankAt gap

theorem SitsAt.behind {front : List Entry} {a : Entry} (h : SitsAt line span row)
    (hsplit : row.toList = front ++ [a]) : BlankAt line ⟨a.term.span.stop, span.stop⟩ := by
  obtain ⟨_, _, gap, next, b, k, _, _, _, _, -, -, ⟨hgap, tie⟩, hnext, terms, hb⟩ := h.exists_of_toList hsplit
  obtain rfl := terms.eq_nil_iff.mpr rfl
  generalize a.join = join at tie
  cases tie
  obtain rfl : a.term.span.stop = k := hgap.tiles
  exact hnext.blankAt hb

theorem SitsAt.empty (h : SitsAt line span row) (hempty : row.toList = []) : BlankAt line span := by
  obtain ⟨w, _, sits, a, ws, b, rfl, ha, terms, hb⟩ := h
  obtain rfl : row = .nil := by rw [← Row.ofList_toList row, hempty]; rfl
  obtain rfl := terms.eq_nil_iff.mpr rfl
  rw [List.append_nil] at sits
  obtain ⟨v, v', rfl, hv, hv'⟩ := sits.textsOf.exists_of_append
  exact ⟨_, sits.textAt, List.forall_mem_append.mpr ⟨hv.blanks_of_gap ha, hv'.blanks_of_gap hb⟩⟩

theorem SitsAt.faithful (h : SitsAt line span row) (fits : row.nesting ≤ limit) : Faithful limit line span row where
  term _ he := h.exists_text fits he
  group _ _ _ hmem := (h.body hmem).1
  ordered := by
    obtain ⟨_, _, sits, a, ws, b, rfl, -, terms, -⟩ := h
    obtain ⟨_, hfront, -⟩ := sits.tiles.exists_of_append
    obtain ⟨_, -, hterms⟩ := hfront.exists_of_append
    rw [← Row.ofList_toList row] at terms
    exact (terms.ordered hterms).2
  between _ _ _ _ hsplit := h.between hsplit
  before a back hsplit := by
    rw [← List.nil_append (a :: back)] at hsplit
    obtain ⟨_, _, _, _, _, _, _, _, _, _, ⟨hbefore, gap⟩, -⟩ := h.exists_of_toList hsplit
    exact hbefore.blankAt (gap rfl)
  behind _ _ hsplit := h.behind hsplit
  empty := h.empty

theorem Level.sitsAt {line : String} {whole : Row} (h : Level line whole span row)
    (sits : SitsAt line.toList ⟨0, line.utf8ByteSize⟩ whole) :
    SitsAt line.toList span row ∧ row.nesting ≤ whole.nesting := by
  induction h with
  | line => exact ⟨sits, Nat.le_refl _⟩
  | @body span outer body h join level mem ih =>
    obtain ⟨houter, hnesting⟩ := ih
    have hbody : body.nesting + 1 ≤ outer.nesting := Row.nesting_le_of_mem mem
    exact ⟨(houter.body mem).2, by omega⟩

end Level

/-- At every level of a line that is read the spans are faithful to the line. -/
theorem faithful_of_ofLine {limit : Nat} {line : String} {row : Row} (h : Row.ofLine limit line = .ok row)
    {span : Span} {inner : Row} (level : Level line row span inner) : Faithful limit line.toList span inner := by
  obtain ⟨ts, reads, derives, fits⟩ := Row.exists_of_ofLine h
  obtain ⟨sits, hnesting⟩ := level.sitsAt ⟨_, ts, .of_line reads, derives⟩
  exact sits.faithful (Nat.le_trans hnesting fits)

/-- A symbol of three bytes, a join with blanks, and a group with a negated magnitude, all in a group. -/
theorem faithful_of_negated_magnitude :
    let line := "-2(1◇ + --3())"
    let lozenge : Symbol := ⟨'◇', by decide +kernel⟩
    let inner : Head := ⟨some ⟨.minus, ⟨10, 11⟩⟩, some ⟨-3, ⟨11, 13⟩⟩, ⟨13, 15⟩, ⟨10, 15⟩⟩
    let body : Row := .cluster ⟨1, lozenge, ⟨3, 7⟩⟩ (some ⟨.plus, ⟨7, 10⟩⟩) (.group inner .nil none .nil)
    let outer : Head := ⟨some ⟨.minus, ⟨0, 1⟩⟩, some ⟨2, ⟨1, 2⟩⟩, ⟨2, 16⟩, ⟨0, 16⟩⟩
    let row : Row := .group outer body none .nil
    Row.ofLine 2 line = .ok row ∧ Level line row ⟨3, 15⟩ body ∧ Faithful 2 line.toList ⟨3, 15⟩ body := by
  intro line lozenge inner body outer row
  have hread : Row.ofLine 2 line = .ok row := by decide +kernel
  have level : Level line row ⟨3, 15⟩ body := .body (h := outer) .line (List.mem_singleton_self _)
  exact ⟨hread, level, faithful_of_ofLine hread level⟩

end Dotwork
