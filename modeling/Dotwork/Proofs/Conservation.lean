import Dotwork.Proofs.Agreement
import Dotwork.Proofs.Canvas
import Dotwork.Proofs.Shape

/-!
# From the tokens of a line to its layout

A layout shows what the tokens of its line tell, and nothing is lost, added, reordered or put elsewhere on the way:
a group for each pair of parentheses, as many dots of a symbol as its integer says, and a marker for each plus
that ties two terms.
-/

namespace Dotwork

/-! ### Parentheses -/

/-- An opening parenthesis between some tokens has its closing one, and the span of the group that the events open
    behind as many brackets ends there. -/
def MatchedAt (es : List Event) (before rest : List (Located Token)) : Prop :=
  ∃ inside c after, rest = inside ++ ⟨.rightParen, c⟩ :: after ∧ Bracket.Balanced (Tokens.brackets inside) ∧
    ∃ outer h later, es = outer ++ .opening h :: later ∧ Event.brackets outer = Tokens.brackets before ∧
      h.span.stop = c.stop

/-- So have all opening parentheses among some tokens. -/
def Matched (ts : List (Located Token)) (es : List Event) : Prop :=
  ∀ before o rest, ts = before ++ ⟨.leftParen, o⟩ :: rest → MatchedAt es before rest

section Matched
variable {ts us before rest : List (Located Token)} {es fs : List Event}

theorem MatchedAt.extend (h : MatchedAt es before rest) (us : List (Located Token)) (fs : List Event) :
    MatchedAt (es ++ fs) before (rest ++ us) := by
  obtain ⟨inside, c, after, rfl, balanced, outer, g, later, rfl, houter, hstop⟩ := h
  exact ⟨inside, c, after ++ us, by simp, balanced, outer, g, later ++ fs, by simp, houter, hstop⟩

theorem MatchedAt.shift (h : MatchedAt fs before rest) (same : Tokens.brackets ts = Event.brackets es) :
    MatchedAt (es ++ fs) (ts ++ before) rest := by
  obtain ⟨inside, c, after, rfl, balanced, outer, g, later, rfl, houter, hstop⟩ := h
  refine ⟨inside, c, after, rfl, balanced, es ++ outer, g, later, by simp, ?_, hstop⟩
  rw [Event.brackets_append, houter, Tokens.brackets_append, same]

theorem Matched.of_brackets_eq_nil (h : Tokens.brackets ts = []) : Matched ts es := by
  rintro before o rest rfl
  simp [Tokens.brackets, Token.bracket?] at h

theorem Matched.append (h : Matched ts es) (h' : Matched us fs) (same : Tokens.brackets ts = Event.brackets es) :
    Matched (ts ++ us) (es ++ fs) := by
  intro before o rest hsplit
  -- The first token of the second part counts to the second part, though the split may put it behind the first.
  rcases List.append_eq_append_iff.mp hsplit with ⟨before', rfl, hus⟩ | ⟨rest', hts, hrest⟩
  · exact (h' before' o rest hus).shift same
  · cases rest' with
    | nil =>
      have first := (h' [] o rest hrest.symm).shift same
      rwa [List.append_nil, hts, List.append_nil] at first
    | cons t rest' =>
      cases hrest
      exact (h before o rest' hts).extend us fs

theorem Matched.behind_flat (h : Matched us fs) (hts : Tokens.brackets ts = []) (hes : Event.brackets es = []) :
    Matched (ts ++ us) (es ++ fs) :=
  (Matched.of_brackets_eq_nil hts).append h (hts.trans hes.symm)

theorem Matched.append_flat (h : Matched ts es) (same : Tokens.brackets ts = Event.brackets es)
    (hus : Tokens.brackets us = []) : Matched (ts ++ us) es := by
  have whole := h.append (Matched.of_brackets_eq_nil hus : Matched us []) same
  rwa [List.append_nil] at whole

/-- A pair of parentheses around matched tokens. -/
theorem Matched.group {o c : Span} {g : Head} (h : Matched ts es) (same : Tokens.brackets ts = Event.brackets es)
    (balanced : Bracket.Balanced (Tokens.brackets ts)) (hstop : g.span.stop = c.stop) :
    Matched (⟨.leftParen, o⟩ :: (ts ++ [⟨.rightParen, c⟩])) (.opening g :: (es ++ [.closing])) := by
  intro before o' rest hsplit
  cases before with
  | nil =>
    cases hsplit
    exact ⟨ts, c, [], rfl, balanced, [], g, es ++ [.closing], rfl, rfl, hstop⟩
  | cons t before =>
    obtain ⟨rfl, htail⟩ := List.cons.inj hsplit
    have closing : Matched [⟨.rightParen, c⟩] [.closing] := fun before o rest h => by
      cases before <;> simp at h
    have opening : Tokens.brackets [⟨.leftParen, o⟩] = Event.brackets [.opening g] := rfl
    exact (h.append closing same before o' rest htail).shift opening

end Matched

namespace Row

theorem CountLead.brackets {lead : List (Located Token)} {count : Int} (h : CountLead lead count) :
    Tokens.brackets lead = [] := by
  cases h <;> rfl

theorem GroupLead.brackets {lead : List (Located Token)} {sign : Option (Located Sign)}
    {magnitude : Option (Located Int)} (h : GroupLead lead sign magnitude) : Tokens.brackets lead = [] := by
  cases h with
  | bare | magnitude => rfl
  | sign g | signed g | negated g => cases g <;> rfl

theorem Gap.brackets {gap : List (Located Token)} (h : Gap gap) : Tokens.brackets gap = [] := by
  cases h <;> rfl

theorem Tie.brackets {closed : Bool} {gap next : List (Located Token)} {join : Option (Located Join)}
    (h : Tie closed gap join next) : Tokens.brackets gap = [] := by
  cases h with
  | last => rfl
  | next boundary =>
    cases boundary with
    | plus p before behind =>
      rw [Tokens.brackets_append, before.brackets]
      exact behind.brackets
    | space => rfl
    | touch paren noPlus gap => exact gap.brackets

theorem Terms.brackets {ts : List (Located Token)} {row : Row} (h : Terms ts row) :
    Tokens.brackets ts = Event.brackets row.events := by
  have agrees : Agrees [] ts [] row.events := h.agrees rfl fun _ _ => ⟨rfl, fun _ => rfl⟩
  exact agrees.brackets

/-- The tokens stop in the order in which they stand. -/
def Sorted (ts : List (Located Token)) : Prop :=
  ts.Pairwise fun t u => t.span.stop ≤ u.span.stop

/-- A group whose lead does not stop behind its closing parenthesis stops there. -/
theorem groupSpan_stop {lead : List (Located Token)} {o c : Span} (h : ∀ t ∈ lead, t.span.stop ≤ c.stop)
    (ho : o.stop ≤ c.stop) : ((startSpan lead o).union (o.union c)).stop = c.stop := by
  have hstart : (startSpan lead o).stop ≤ c.stop := by
    cases lead with
    | nil => exact ho
    | cons t lead => exact h t List.mem_cons_self
  show max (startSpan lead o).stop (max o.stop c.stop) = c.stop
  omega

/-- Blanks on either side change nothing. -/
theorem matched_between_gaps {a inner b : List (Located Token)} {es : List Event} (ha : Gap a)
    (h : Matched inner es) (same : Tokens.brackets inner = Event.brackets es) (hb : Gap b) :
    Matched (a ++ inner ++ b) es ∧ Tokens.brackets (a ++ inner ++ b) = Event.brackets es := by
  have hfront : Tokens.brackets (a ++ inner) = Event.brackets es := by
    rw [Tokens.brackets_append, ha.brackets, List.nil_append, same]
  refine ⟨(h.behind_flat ha.brackets Event.brackets_nil).append_flat hfront hb.brackets, ?_⟩
  rw [Tokens.brackets_append, hfront, hb.brackets, List.append_nil]

theorem Terms.matched {ts : List (Located Token)} {row : Row} (h : Terms ts row) (sorted : Sorted ts) :
    Matched ts row.events := by
  induction h with
  | nil => exact Matched.of_brackets_eq_nil rfl
  | @cluster lead gap next count join rest x s counts tie terms ih =>
    have flat : Tokens.brackets (lead ++ ⟨.symbol x, s⟩ :: gap) = [] := by
      rw [Tokens.brackets_append, counts.brackets]
      exact tie.brackets
    have hsplit : lead ++ ⟨.symbol x, s⟩ :: (gap ++ next) = lead ++ ⟨.symbol x, s⟩ :: gap ++ next := by simp
    rw [hsplit] at sorted ⊢
    have hnext := ih (List.pairwise_append.mp sorted).2.1
    exact hnext.behind_flat flat (by simp)
  | @group lead a inner b gap next sign magnitude body join rest o c leads before content behind tie terms ihb ih =>
    have hinner := ihb (sorted.sublist (List.IsInfix.sublist
      ⟨lead ++ ⟨.leftParen, o⟩ :: a, b ++ ⟨.rightParen, c⟩ :: (gap ++ next), by simp⟩))
    have hnext := ih (sorted.sublist (List.IsInfix.sublist
      ⟨lead ++ ⟨.leftParen, o⟩ :: (a ++ inner ++ b) ++ ⟨.rightParen, c⟩ :: gap, [], by simp⟩))
    obtain ⟨head, hhead⟩ : ∃ head : Head,
        head = ⟨sign, magnitude, o.union c, (startSpan lead o).union (o.union c)⟩ := ⟨_, rfl⟩
    -- The span of the group covers its lead, too, which may not reach beyond the closing parenthesis.
    have hstop : head.span.stop = c.stop := by
      have hc : ∀ t ∈ lead ++ ⟨.leftParen, o⟩ :: (a ++ inner ++ b), t.span.stop ≤ c.stop := fun t ht =>
        (List.pairwise_append.mp sorted).2.2 t ht ⟨.rightParen, c⟩ List.mem_cons_self
      rw [hhead]
      exact groupSpan_stop (fun t ht => hc t (by simp [ht])) (hc ⟨.leftParen, o⟩ (by simp))
    obtain ⟨inside, same⟩ := matched_between_gaps before hinner content.brackets behind
    have pair : Matched (⟨.leftParen, o⟩ :: (a ++ inner ++ b ++ [⟨.rightParen, c⟩]))
        (.opening head :: (body.events ++ [.closing])) :=
      inside.group same (same ▸ body.level_events 0) hstop
    have hpair : Tokens.brackets (⟨.leftParen, o⟩ :: (a ++ inner ++ b ++ [⟨.rightParen, c⟩])) =
        Event.brackets (.opening head :: (body.events ++ [.closing])) := by
      rw [Event.brackets_opening, Event.brackets_append, ← same]
      exact congrArg (List.cons _) (Tokens.brackets_append _ _)
    have later : Matched (gap ++ next) (joinEvents join rest ++ rest.events) :=
      hnext.behind_flat tie.brackets (brackets_joinEvents join rest)
    have whole := (pair.append later hpair).behind_flat leads.brackets Event.brackets_nil
    simpa [events, ← hhead] using whole

theorem Derives.matched {ts : List (Located Token)} {row : Row} (h : Derives ts row) (sorted : Sorted ts) :
    Matched ts row.events := by
  obtain ⟨a, ws, b, rfl, ha, terms, hb⟩ := h
  have hwords := terms.matched (sorted.sublist (List.IsInfix.sublist ⟨a, b, rfl⟩))
  exact (matched_between_gaps ha hwords terms.brackets hb).1

end Row

/-! ### Conservation -/

theorem Chained.sorted {ts : List (Located Token)} {start : Nat} (h : Chained start ts) :
    (∀ t ∈ ts, start ≤ t.span.stop) ∧ Row.Sorted ts := by
  induction ts generalizing start with
  | nil => exact ⟨by simp, .nil⟩
  | cons t ts ih =>
    obtain ⟨-, hstop, hrest⟩ := h
    obtain ⟨hle, hsorted⟩ := ih hrest
    refine ⟨fun u hu => ?_, List.pairwise_cons.mpr ⟨hle, hsorted⟩⟩
    rcases List.mem_cons.mp hu with rfl | hu
    · exact hstop
    · exact Nat.le_trans hstop (hle u hu)

/-- What a layout shows is what some tokens tell. -/
structure Conserved (ts : List (Located Token)) (l : Layout) : Prop where
  groups : l.groups.size = Bracket.openings (Tokens.brackets ts)
  group : ∀ before o rest, ts = before ++ ⟨.leftParen, o⟩ :: rest →
    ∃ inside c after, rest = inside ++ ⟨.rightParen, c⟩ :: after ∧ Bracket.Balanced (Tokens.brackets inside) ∧
      ∃ b, l.groups[Bracket.openings (Tokens.brackets before)]? = some b ∧
        b.id = ⟨Bracket.openings (Tokens.brackets before)⟩ ∧ b.source.stop = c.stop ∧
        b.parent = (Tokens.path before).getLast? ∧ b.depth = (Tokens.path before).length + 1
  counted : ∀ before x s after, ts = before ++ ⟨.symbol x, s⟩ :: after →
    ∃ lead n p, before = lead ++ [⟨.integer n, p⟩]
  elements : l.elements.toList.map (fun e => (e.symbol, e.sign, e.path)) = scan Tokens.dotsOf [] ts
  unions : List.Forall₂ SameTie (scan Tokens.tiesOf [] ts)
    (l.unions.toList.map fun m => (m.source, m.depth, m.group))

theorem Layout.exists_of_ofLine {s : Settings} {line : String} {l : Layout} (h : ofLine s line = .ok l) :
    ∃ ts row, Token.ofLine line = .ok ts ∧ Row.ofTokens s.maxDepth ts = .ok row ∧ ofRow s row = .ok l := by
  unfold ofLine Row.read at h
  cases hrow : Row.ofLine s.maxDepth line with
  | error report =>
    rw [hrow] at h
    cases h
  | ok row =>
    rw [hrow] at h
    obtain ⟨ts, hts, hread⟩ := Row.ofLine_eq_ok_iff.mp hrow
    refine ⟨ts, row, hts, hread, ?_⟩
    simp only [Except.mapError] at h
    split at h
    · cases h
    · next hl =>
      cases h
      exact hl

theorem conserved_of_derives {s : Settings} {ts : List (Located Token)} {row : Row} {l : Layout}
    (derives : Row.Derives ts row) (sorted : Row.Sorted ts) (h : Layout.ofRow s row = .ok l) : Conserved ts l := by
  obtain rfl := Layout.eq_layout_of_ofRow h
  have agrees := derives.agrees
  constructor
  case groups => exact (Layout.drawn_groups_size s.spacing row.events).trans (congrArg _ agrees.brackets.symm)
  case group =>
    intro before o rest hsplit
    obtain ⟨inside, c, after, hrest, balanced, outer, g, later, hevents, houter, hstop⟩ :=
      derives.matched sorted before o rest hsplit
    -- The tokens and the events have as many brackets in front, so both speak of the group with that number.
    obtain ⟨within, behind, rfl, hwithin⟩ := Row.exists_closing hevents
    have hgroup := Layout.drawn_group s.spacing outer g behind hwithin
    rw [← hevents, houter] at hgroup
    have hpath : Event.path outer = Tokens.path before := by rw [Event.path, houter, Tokens.path]
    exact ⟨inside, c, after, hrest, balanced, _, hgroup, congrArg _ (congrArg _ houter), hstop,
      congrArg List.getLast? hpath, congrArg (List.length · + 1) hpath⟩
  case counted =>
    rintro before x p after rfl
    exact Tokens.exists_of_uncountedOf (eq_nil_of_scan agrees.counted)
  case elements =>
    show (Layout.drawn s.spacing row.events).elements.toList.map _ = _
    rw [agrees.dots, Layout.drawn_elements, map_scan]
    congr
    funext before e
    cases e <;> rfl
  case unions =>
    have hties : ((Layout.drawn s.spacing row.events).unions.toList.map fun m => (m.source, m.depth, m.group)) =
        scan Event.tiesOf [] row.events := by
      rw [Layout.drawn_unions, map_scan]
      congr
      funext before e
      cases e <;> rfl
    exact hties ▸ agrees.ties

/-- The layout of a line conserves what its tokens tell. -/
theorem conserved_of_ofLine {s : Settings} {line : String} {l : Layout} (h : Layout.ofLine s line = .ok l) :
    ∃ ts, Token.ofLine line = .ok ts ∧ Conserved ts l := by
  obtain ⟨ts, row, hts, hrow, hl⟩ := Layout.exists_of_ofLine h
  have hchars := Token.ofChars_of_ofLine hts
  have derives := Row.derives_of_ofTokens (Token.admissible_of_ofChars hchars).spaced hrow
  exact ⟨ts, hts, conserved_of_derives derives (Token.chained_of_ofChars hchars).sorted.2 hl⟩

/-- Minus dots, tied by a plus between blanks to a group in a group. -/
theorem conserved_of_nested_groups :
    ∃ ts l, Token.ofLine "-2x + (3y())" = .ok ts ∧ Layout.ofLine {} "-2x + (3y())" = .ok l ∧ Conserved ts l := by
  have placed : (Layout.ofLine {} "-2x + (3y())").toOption.isSome = true := by decide +kernel
  cases h : Layout.ofLine {} "-2x + (3y())" with
  | error problem =>
    rw [h] at placed
    cases placed
  | ok l =>
    obtain ⟨ts, hts, conserved⟩ := conserved_of_ofLine h
    exact ⟨ts, l, hts, rfl, conserved⟩

end Dotwork
