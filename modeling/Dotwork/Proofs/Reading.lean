import Dotwork.Proofs.Grammar
import Mathlib.Data.List.Chain

/-!
# What a reader has read

The tokens that brought a reader to where it is make up what it holds: the open groups with what stands in front
of their parentheses, the finished entries, and the term that it is in. One token keeps this (`Reads.step`), so a
whole line does, and the row at its end is written by the line (`derives_of_ofTokens`).
-/

namespace Dotwork.Row.Reader

/-! ### Beginnings of terms -/

/-- The tokens of the beginning of a term. -/
def Lead.words (l : Lead) : List (Located Token) :=
  l.sign.toList.map (Located.map Sign.token) ++ l.negation.toList.map (Located.mk .minus)
    ++ l.count.toList.map (Located.map Token.integer)

/-- A beginning as tokens make it: it holds one at least, and its second minus stands behind a sign. -/
structure Lead.Formed (l : Lead) : Prop where
  start : ∃ t rest, l.words = t :: rest ∧ t.span = l.first
  second : l.sign = none → l.negation = none

namespace Lead
variable {l : Lead}

theorem words_negate (hn : l.negation = none) (hc : l.count = none) (m : Span) :
    { l with negation := some m }.words = l.words ++ [⟨.minus, m⟩] := by
  simp [words, hn, hc]

theorem words_count (hc : l.count = none) (n : Nat) (s : Span) :
    { l with count := some ⟨n, s⟩ }.words = l.words ++ [⟨.integer n, s⟩] := by
  simp [words, hc, Located.map]

theorem Formed.startSpan (h : l.Formed) (s : Span) : startSpan l.words s = l.first := by
  obtain ⟨t, rest, hw, ht⟩ := h.start
  simp [Row.startSpan, hw, ht]

theorem Formed.negate (h : l.Formed) (hn : l.negation = none) (hc : l.count = none) (m : Span) :
    Formed { l with negation := some m } := by
  obtain ⟨t, rest, hw, ht⟩ := h.start
  refine ⟨⟨t, rest ++ [⟨.minus, m⟩], by rw [words_negate hn hc, hw]; rfl, ht⟩, fun hs => ?_⟩
  -- Without a sign and a count the beginning would hold no token.
  have hs : l.sign = none := hs
  simp [words, hs, hn, hc] at hw

theorem Formed.enlarge (h : l.Formed) (hc : l.count = none) (n : Nat) (s : Span) :
    Formed { l with count := some ⟨n, s⟩ } := by
  obtain ⟨t, rest, hw, ht⟩ := h.start
  exact ⟨⟨t, rest ++ [⟨.integer n, s⟩], by rw [words_count hc, hw]; rfl, ht⟩, h.second⟩

theorem Formed.countLead (h : l.Formed) {count : Int} (hc : l.clusterCount = .ok count) :
    CountLead l.words count := by
  obtain ⟨position, first, sign, negation, number⟩ := l
  cases number with
  | none => simp [clusterCount] at hc
  | some n =>
    obtain ⟨n, s⟩ := n
    cases negation with
    | some m => simp [clusterCount] at hc
    | none =>
      rcases sign with _ | ⟨_ | _, p⟩
      · simp only [clusterCount, Option.isSome_none, Bool.false_eq_true, ↓reduceIte, Option.map_none,
          Except.ok.injEq] at hc
        exact hc ▸ .plain n s
      · simp [clusterCount] at hc
      · by_cases hn : n = 0
        · simp [clusterCount, hn] at hc
        · simp only [clusterCount, Option.isSome_none, Bool.false_eq_true, ↓reduceIte, Option.map_some, hn,
            Except.ok.injEq] at hc
          exact hc ▸ .negated n p s (Nat.pos_of_ne_zero hn)

theorem Formed.groupLead (h : l.Formed) {magnitude : Option (Located Int)} (hm : l.magnitude = .ok magnitude) :
    GroupLead l.words l.sign magnitude := by
  obtain ⟨position, first, sign, negation, number⟩ := l
  cases negation with
  | none =>
    simp only [Lead.magnitude, Except.ok.injEq] at hm
    subst hm
    rcases sign with _ | ⟨g, p⟩ <;> rcases number with _ | ⟨n, s⟩
    · exact .bare
    · exact .magnitude n s
    · exact .sign g p
    · exact .signed g n p s
  | some m =>
    rcases number with _ | ⟨n, s⟩
    · simp [Lead.magnitude] at hm
    · simp only [Lead.magnitude, Except.ok.injEq] at hm
      subst hm
      rcases sign with _ | ⟨g, p⟩
      · cases h.second rfl
      · exact .negated g n p m s

end Lead

/-! ### Between terms -/

/-- The tokens `before` hold the finished entries `done`, last one first, and all that stands in front of a term
    that begins with the token `first`. -/
inductive Upto : List Entry → List (Located Token) → Token → Prop
  | start {a : List (Located Token)} {first : Token} (gap : Gap a) : Upto [] a first
  | tie {done : List Entry} {before words gap : List (Located Token)} {w : Located Token} {t : Term}
      {join : Option (Located Join)} {first : Token} (upto : Upto done before w.value)
      (writes : WritesTerm (w :: words) t) (boundary : Boundary t.isGroup first gap join) :
    Upto (⟨t, join⟩ :: done) (before ++ w :: words ++ gap) first

/-- The tokens hold the finished entries `done` and end with the term `t`. -/
def Behind (done : List Entry) (t : Term) (ws : List (Located Token)) : Prop :=
  ∃ before w words, ws = before ++ w :: words ∧ Upto done before w.value ∧ WritesTerm (w :: words) t

theorem Behind.tie {done : List Entry} {t : Term} {ws gap : List (Located Token)} {first : Token}
    {join : Option (Located Join)} (h : Behind done t ws) (boundary : Boundary t.isGroup first gap join) :
    Upto (⟨t, join⟩ :: done) (ws ++ gap) first := by
  obtain ⟨before, w, words, rfl, hu, hw⟩ := h
  exact .tie hu hw boundary

/-- Terms behind the finished entries are a longer row. -/
theorem Upto.terms {done : List Entry} {before : List (Located Token)} {first : Token} (h : Upto done before first) :
    ∀ {t : Located Token} {next : List (Located Token)} {row : Row}, t.value = first → Terms (t :: next) row →
      ∃ a ws, before ++ t :: next = a ++ ws ∧ Gap a ∧ Terms ws (ofList (done.reverse ++ row.toList)) := by
  induction h with
  | start gap =>
    intro t next row _ terms
    refine ⟨_, t :: next, rfl, gap, ?_⟩
    rwa [List.reverse_nil, List.nil_append, ofList_toList]
  | @tie done before words gap w u join first upto writes boundary ih =>
    intro t next row ht terms
    have longer := Terms.cons writes (.next (ht ▸ boundary)) terms
    obtain ⟨a, ws, hsplit, ha, hws⟩ := ih rfl (by simpa using longer)
    refine ⟨a, ws, by simpa using hsplit, ha, ?_⟩
    simpa [toList_cons] using hws

theorem Behind.terms {done : List Entry} {t : Term} {ws : List (Located Token)} (h : Behind done t ws) :
    ∃ a inner, ws = a ++ inner ∧ Gap a ∧ Terms inner (ofList (⟨t, none⟩ :: done).reverse) := by
  obtain ⟨before, w, words, rfl, hu, hw⟩ := h
  simpa [toList_cons, toList] using hu.terms rfl hw

/-! ### The invariant -/

/-- The first token of a group with a given lead. -/
def startToken (lead : List (Located Token)) : Token :=
  (lead.head?.map (·.value)).getD .leftParen

/-- The tokens up to and including the innermost open parenthesis make up the open groups. -/
inductive Frames : List Frame → List (Located Token) → Prop
  | nil : Frames [] []
  | cons {frames : List Frame} {outer before lead : List (Located Token)} {f : Frame}
      (enclosing : Frames frames outer) (upto : Upto f.before before (startToken lead))
      (leads : GroupLead lead f.sign f.magnitude)
      (first : f.first = startSpan lead f.paren) (position : f.position = (outer ++ before ++ lead).length) :
    Frames (f :: frames) (outer ++ before ++ lead ++ [⟨.leftParen, f.paren⟩])

/-- The tokens behind the innermost open parenthesis, which is the token in front of `offset`, make up the
    finished entries and the stand. -/
def At (offset : Nat) (done : List Entry) : Stand → List (Located Token) → Prop
  | .fresh, inner => done = [] ∧ Gap inner
  | .lead l, inner => l.Formed ∧ ∃ before, inner = before ++ l.words ∧ l.position = offset + before.length ∧
    ∀ t ∈ l.words.head?, Upto done before t.value
  | .behind t, inner => Behind done t inner
  | .behindBlank t s, inner => ∃ ws, inner = ws ++ [⟨.blank, s⟩] ∧ Behind done t ws
  | .behindPlus t join, inner => ∃ ws a p, inner = ws ++ (a ++ [⟨.plus, p⟩]) ∧ Gap a ∧ join = cover p a ∧
    Behind done t ws
  | .behindPlusBlank t join, inner => ∃ ws a p s, inner = ws ++ (a ++ [⟨.plus, p⟩, ⟨.blank, s⟩]) ∧ Gap a ∧
    join = cover p (a ++ [⟨.blank, s⟩]) ∧ Behind done t ws

/-- The tokens make up all that the reader holds. -/
def Reads (s : State) (ws : List (Located Token)) : Prop :=
  ∃ outer inner, ws = outer ++ inner ∧ Frames s.frames outer ∧ At outer.length s.done s.stand inner

theorem Reads.start : Reads start [] :=
  ⟨[], [], rfl, .nil, rfl, .none⟩

/-! ### One token -/

section Step
variable (limit : Nat) {s s' : State} {outer inner : List (Located Token)}

theorem openGroup_reads {before lead : List (Located Token)} {first paren : Span} {sign : Option (Located Sign)}
    {magnitude : Option (Located Int)} (frames : Frames s.frames outer)
    (upto : Upto s.done before (startToken lead)) (leads : GroupLead lead sign magnitude)
    (hfirst : first = startSpan lead paren)
    (h : openGroup limit (outer ++ before ++ lead).length paren first sign magnitude s = .ok s') :
    Reads s' (outer ++ before ++ lead ++ [⟨.leftParen, paren⟩]) := by
  unfold openGroup at h
  split at h
  · cases h
    exact ⟨_, [], (List.append_nil _).symm, .cons frames upto leads hfirst rfl, rfl, .none⟩
  · cases h

theorem beginTerm_reads {t : Located Token} {before : List (Located Token)} (frames : Frames s.frames outer)
    (upto : Upto s.done before t.value) (h : beginTerm limit (outer ++ before).length t s = .ok s') :
    Reads s' (outer ++ (before ++ [t])) := by
  obtain ⟨v, p⟩ := t
  -- Signs and integers begin a lead, a parenthesis opens a group without one, and the rest begins no term.
  cases v with
  | integer n =>
    simp only [beginTerm] at h
    split at h
    · cases h
      refine ⟨outer, _, rfl, frames, ⟨⟨⟨_, _, rfl, rfl⟩, fun _ => rfl⟩, before, rfl, by simp, ?_⟩⟩
      rintro w ⟨⟩
      exact upto
    · cases h
  | plus =>
    cases h
    refine ⟨outer, _, rfl, frames, ⟨⟨⟨_, _, rfl, rfl⟩, fun _ => rfl⟩, before, rfl, by simp, ?_⟩⟩
    rintro w ⟨⟩
    exact upto
  | minus =>
    cases h
    refine ⟨outer, _, rfl, frames, ⟨⟨⟨_, _, rfl, rfl⟩, fun _ => rfl⟩, before, rfl, by simp, ?_⟩⟩
    rintro w ⟨⟩
    exact upto
  | leftParen =>
    have h' : openGroup limit (outer ++ before ++ []).length p p none none s = .ok s' := by
      simpa [beginTerm] using h
    simpa using openGroup_reads limit frames upto .bare rfl h'
  | symbol x | rightParen | blank =>
    simp only [beginTerm, stray] at h
    split at h <;> cases h

theorem beginTerm_tie_reads {last : Term} {join : Option (Located Join)} {ws gap : List (Located Token)}
    {t : Located Token} (frames : Frames s.frames outer) (behind : Behind s.done last ws)
    (boundary : Boundary last.isGroup t.value gap join)
    (h : beginTerm limit (outer ++ (ws ++ gap)).length t (tie last join s) = .ok s') :
    Reads s' (outer ++ (ws ++ gap ++ [t])) :=
  beginTerm_reads limit (s := tie last join s) frames (behind.tie boundary) h

/-- Closing a group makes a term of it, which stands where the group began. -/
theorem closeGroup_reads {position : Nat} {c : Span} (frames : Frames s.frames outer) (derives : Derives inner s.row)
    (h : closeGroup position c s = .ok s') : Reads s' (outer ++ (inner ++ [⟨.rightParen, c⟩])) := by
  unfold closeGroup at h
  generalize hfs : s.frames = fs at frames h
  cases frames with
  | nil => cases h
  | @cons frames outer' before lead f enclosing upto leads first =>
    cases h
    obtain ⟨a, ws, b, rfl, ha, hws, hb⟩ := derives
    have writes := Terms.group f.paren c leads ha hws hb .last .nil
    have hstart : ∃ w words, lead ++ ⟨.leftParen, f.paren⟩ :: (a ++ ws ++ b) ++ [⟨.rightParen, c⟩] = w :: words ∧
        w.value = startToken lead := by
      cases lead with
      | nil => exact ⟨_, _, rfl, rfl⟩
      | cons w lead => exact ⟨w, _, rfl, rfl⟩
    obtain ⟨w, words, hw, hfirst⟩ := hstart
    refine ⟨outer', before ++ w :: words, ?_, enclosing, before, w, words, rfl, hfirst ▸ upto, ?_⟩
    · rw [← hw]
      simp
    · rw [← hw, first]
      exact writes

/-- A reader rests where the row that it is in may end. -/
def State.Rests (s : State) : Prop :=
  s.stand = .fresh ∨ (∃ t, s.stand = .behind t) ∨ ∃ t blank, s.stand = .behindBlank t blank

/-- A reader that rests holds a row that the tokens behind the innermost parenthesis write. -/
theorem At.derives {offset : Nat} (h : At offset s.done s.stand inner) (rests : s.Rests) : Derives inner s.row := by
  rcases rests with hs | ⟨t, hs⟩ | ⟨t, blank, hs⟩
  · rw [hs] at h
    obtain ⟨hdone, hgap⟩ := h
    refine ⟨inner, [], [], by simp, hgap, ?_, .none⟩
    simpa [State.row, State.entries, hs, hdone, ofList] using Terms.nil
  · rw [hs] at h
    obtain ⟨a, ws, rfl, ha, hws⟩ := Behind.terms h
    refine ⟨a, ws, [], by simp, ha, ?_, .none⟩
    simpa [State.row, State.entries, hs] using hws
  · rw [hs] at h
    obtain ⟨ws', rfl, hb⟩ := h
    obtain ⟨a, ws, rfl, ha, hws⟩ := hb.terms
    refine ⟨a, ws, [⟨.blank, blank⟩], rfl, ha, ?_, .blank blank⟩
    simpa [State.row, State.entries, hs] using hws

theorem stepLead_reads {l : Lead} {t : Located Token} (frames : Frames s.frames outer)
    (hat : At outer.length s.done (.lead l) inner)
    (h : stepLead limit (outer ++ inner).length l t s = .ok s') : Reads s' (outer ++ (inner ++ [t])) := by
  obtain ⟨formed, before, rfl, position, upto⟩ := hat
  obtain ⟨w, words, hw, hfirst⟩ := formed.start
  have upto : Upto s.done before w.value := upto w (by rw [hw]; rfl)
  obtain ⟨v, p⟩ := t
  cases v with
  | minus =>
    simp only [stepLead, Option.isNone_iff_eq_none] at h
    split at h
    · next hl =>
      cases h
      have hwords := Lead.words_negate hl.1 hl.2 p
      refine ⟨outer, _, rfl, frames, formed.negate hl.1 hl.2 p, before, by rw [hwords]; simp, position, ?_⟩
      rw [hwords, hw]
      rintro _ ⟨⟩
      exact upto
    · cases h
  | integer n =>
    simp only [stepLead, Option.isNone_iff_eq_none] at h
    split at h
    · next hl =>
      cases h
      have hwords := Lead.words_count hl.1 n p
      refine ⟨outer, _, rfl, frames, formed.enlarge hl.1 n p, before, by rw [hwords]; simp, position, ?_⟩
      rw [hwords, hw]
      rintro _ ⟨⟩
      exact upto
    · cases h
  | symbol x =>
    simp only [stepLead] at h
    split at h
    · next count hc =>
      cases h
      have writes := Terms.cluster x p (formed.countLead hc) .last .nil
      rw [formed.startSpan, hw] at writes
      refine ⟨outer, _, rfl, frames, ?_⟩
      rw [hw]
      exact ⟨before, w, _, by simp, upto, writes⟩
    · cases h
  | leftParen =>
    simp only [stepLead] at h
    split at h
    · next magnitude hm =>
      have upto' : Upto s.done before (startToken l.words) := by rw [startToken, hw]; exact upto
      rw [← List.append_assoc] at h
      have hr := openGroup_reads limit frames upto' (formed.groupLead hm) (formed.startSpan p).symm h
      simpa using hr
    · cases h
  | plus | rightParen | blank => cases h

theorem stepBehind_reads {last : Term} {t : Located Token} (frames : Frames s.frames outer)
    (hstand : s.stand = .behind last) (behind : Behind s.done last inner)
    (h : stepBehind limit (outer ++ inner).length last t s = .ok s') : Reads s' (outer ++ (inner ++ [t])) := by
  obtain ⟨v, p⟩ := t
  -- A term that touches the one in front.
  have touch : (last.isGroup = true ∨ v = .leftParen) → v ≠ .plus →
      beginTerm limit (outer ++ inner).length ⟨v, p⟩ (tie last none s) = .ok s' →
      Reads s' (outer ++ (inner ++ [⟨v, p⟩])) := fun hp hv hb => by
    rw [← List.append_nil inner] at hb ⊢
    exact beginTerm_tie_reads limit frames behind (.touch hp hv .none) hb
  cases v with
  | blank =>
    cases h
    exact ⟨outer, _, rfl, frames, inner, rfl, behind⟩
  | plus =>
    cases h
    exact ⟨outer, _, rfl, frames, inner, [], p, by simp, .none, rfl, behind⟩
  | rightParen =>
    have hat : At outer.length s.done s.stand inner := by rw [hstand]; exact behind
    exact closeGroup_reads frames (hat.derives (Or.inr (Or.inl ⟨last, hstand⟩))) h
  | leftParen => exact touch (Or.inr rfl) (by simp) h
  | integer n =>
    simp only [stepBehind] at h
    split at h
    · next hg => exact touch (Or.inl hg) (by simp) h
    · cases h
  | minus =>
    simp only [stepBehind] at h
    split at h
    · next hg => exact touch (Or.inl hg) (by simp) h
    · cases h
  | symbol x =>
    simp only [stepBehind, stray] at h
    split at h <;> cases h

theorem stepBehindBlank_reads {last : Term} {blank : Span} {ws gap : List (Located Token)} {t : Located Token}
    (frames : Frames s.frames outer) (hstand : s.stand = .behindBlank last blank) (hgap : gap = [⟨.blank, blank⟩])
    (behind : Behind s.done last ws)
    (h : stepBehindBlank limit (outer ++ (ws ++ gap)).length last blank t s = .ok s') :
    Reads s' (outer ++ (ws ++ gap ++ [t])) := by
  obtain ⟨v, p⟩ := t
  have hg : Gap gap := hgap ▸ .blank blank
  -- What a blank means in front of a term that begins with neither a plus nor a parenthesis.
  have boundary : v ≠ .plus → v ≠ .leftParen → Boundary last.isGroup v gap
      (if last.isGroup = true then none else some ⟨.space, blank⟩) := fun hp hl => by
    split
    · next hc => exact .touch (Or.inl hc) hp hg
    · next hc => exact hgap ▸ .space blank (by simpa using hc) hp hl
  cases v with
  | plus =>
    cases h
    subst hgap
    exact ⟨outer, _, rfl, frames, ws, [⟨.blank, blank⟩], p, by simp, hg, rfl, behind⟩
  | rightParen =>
    have hat : At outer.length s.done s.stand (ws ++ gap) := by
      rw [hstand, hgap]
      exact ⟨ws, rfl, behind⟩
    exact closeGroup_reads frames (hat.derives (Or.inr (Or.inr ⟨last, blank, hstand⟩))) h
  | leftParen => exact beginTerm_tie_reads limit frames behind (.touch (Or.inr rfl) (by simp) hg) h
  | integer n => exact beginTerm_tie_reads limit frames behind (boundary (by simp) (by simp)) h
  | minus => exact beginTerm_tie_reads limit frames behind (boundary (by simp) (by simp)) h
  | symbol x | blank =>
    simp only [stepBehindBlank, stray] at h
    split at h
    · split at h <;> cases h
    · cases h

theorem stepBehindJoin_reads {last : Term} {join : Span} {ws gap : List (Located Token)} {t : Located Token}
    (frames : Frames s.frames outer) (behind : Behind s.done last ws)
    (boundary : Boundary last.isGroup t.value gap (some ⟨.plus, join⟩))
    (h : stepBehindJoin limit (outer ++ (ws ++ gap)).length last join t s = .ok s') :
    Reads s' (outer ++ (ws ++ gap ++ [t])) := by
  unfold stepBehindJoin at h
  split at h
  · exact beginTerm_tie_reads limit frames behind boundary h
  · cases h

end Step

/-- No two blanks stand side by side, as in a line, where a run of blanks is one token. -/
def Spaced (ts : List (Located Token)) : Prop :=
  ts.IsChain fun t u => ¬(t.value = .blank ∧ u.value = .blank)

/-- Every token that a reader takes becomes part of what it holds. -/
theorem Reads.step {limit : Nat} {s s' : State} {ws : List (Located Token)} {t : Located Token} (h : Reads s ws)
    (spaced : Spaced (ws ++ [t])) (hs : step limit ws.length s t = .ok s') : Reads s' (ws ++ [t]) := by
  obtain ⟨outer, inner, rfl, frames, hat⟩ := h
  obtain ⟨fs, done, stand⟩ := s
  rw [List.append_assoc]
  cases stand with
  | fresh =>
    obtain ⟨rfl, gap⟩ := hat
    obtain ⟨v, p⟩ := t
    cases v with
    | blank =>
      cases hs
      cases gap with
      | none => exact ⟨outer, _, rfl, frames, rfl, .blank p⟩
      | blank q =>
        -- Two blanks side by side are the one thing that a reader takes and the grammar does not.
        rw [Spaced, List.append_assoc] at spaced
        exact absurd ⟨rfl, rfl⟩ (List.isChain_append_cons_cons.mp spaced).2.1
    | rightParen =>
      have hat : At outer.length [] .fresh inner := ⟨rfl, gap⟩
      exact closeGroup_reads frames (At.derives (s := ⟨fs, [], .fresh⟩) hat (Or.inl rfl)) hs
    | integer | plus | minus | leftParen | symbol =>
      exact beginTerm_reads limit frames (.start gap) hs
  | lead l => exact stepLead_reads limit frames hat hs
  | behind last => exact stepBehind_reads limit frames rfl hat hs
  | behindBlank last blank =>
    obtain ⟨ws, rfl, behind⟩ := hat
    exact stepBehindBlank_reads limit frames rfl rfl behind hs
  | behindPlus last join =>
    obtain ⟨ws, a, p, rfl, gap, rfl, behind⟩ := hat
    obtain ⟨v, q⟩ := t
    by_cases hv : v = .blank
    · subst hv
      cases hs
      exact ⟨outer, _, rfl, frames, ws, a, p, q, by simp, gap, by simp [cover], behind⟩
    · have boundary : Boundary last.isGroup v (a ++ [⟨.plus, p⟩]) (some ⟨.plus, cover p a⟩) := by
        have tied : Boundary last.isGroup v (a ++ ⟨.plus, p⟩ :: []) (some ⟨.plus, cover p (a ++ [])⟩) :=
          .plus p gap .none
        rwa [List.append_nil] at tied
      refine stepBehindJoin_reads limit frames behind boundary ?_
      have hb : v.isBlank = false := by cases v <;> simp_all [Token.isBlank]
      simpa [Reader.step, hb] using hs
  | behindPlusBlank last join =>
    obtain ⟨ws, a, p, q, rfl, gap, rfl, behind⟩ := hat
    exact stepBehindJoin_reads limit frames behind (.plus p gap (.blank q)) hs

/-! ### A line -/

/-- What holds of a reader before the first token, and is kept by every token of a list that the reader takes,
    holds behind the list. -/
theorem run_induction {limit : Nat} {ts : List (Located Token)} {P : List (Located Token) → State → Prop}
    (init : P [] Reader.start)
    (keep : ∀ ws t rest s s', ts = ws ++ t :: rest → P ws s → step limit ws.length s t = .ok s' → P (ws ++ [t]) s')
    {s : State} (h : run limit 0 Reader.start ts = .ok s) : P ts s := by
  suffices go : ∀ rest ws s', ts = ws ++ rest → P ws s' → run limit ws.length s' rest = .ok s → P ts s from
    go ts [] Reader.start rfl init h
  intro rest
  induction rest with
  | nil =>
    intro ws s' hts hp hrun
    cases hrun
    rwa [hts, List.append_nil]
  | cons t rest ih =>
    intro ws s' hts hp hrun
    simp only [run] at hrun
    split at hrun
    · next u hu =>
      refine ih (ws ++ [t]) u (by simp [hts]) (keep ws t rest s' u hts hp hu) ?_
      simpa using hrun
    · cases hrun

theorem reads_of_run {limit : Nat} {ts : List (Located Token)} {s : State} (spaced : Spaced ts)
    (h : run limit 0 Reader.start ts = .ok s) : Reads s ts := by
  refine run_induction (P := fun ws s => Reads s ws) Reads.start (fun ws t rest s s' hts hr hs => hr.step ?_ hs) h
  rw [hts, ← List.singleton_append, ← List.append_assoc] at spaced
  exact spaced.left_of_append

/-- A line ends where all groups are closed and the reader rests. -/
theorem finish_ok {position : Nat} {s : State} {row : Row} (h : finish position s = .ok row) :
    s.frames = [] ∧ s.Rests ∧ s.row = row := by
  unfold finish at h
  split at h
  · cases h
  · cases h
  · cases h
  all_goals
    split at h
    · next hframes =>
      cases h
      refine ⟨hframes, ?_, rfl⟩
      simp_all [State.Rests]
    · cases h

/-- Where the line may end the whole line writes the row. -/
theorem Reads.derives {position : Nat} {s : State} {ts : List (Located Token)} {row : Row} (h : Reads s ts)
    (hf : finish position s = .ok row) : Derives ts row := by
  obtain ⟨outer, inner, rfl, frames, hat⟩ := h
  obtain ⟨hframes, rests, rfl⟩ := finish_ok hf
  rw [hframes] at frames
  cases frames
  exact hat.derives rests

end Reader

/-- A row read off tokens is written by them. -/
theorem derives_of_ofTokens {limit : Nat} {ts : List (Located Token)} {row : Row} (spaced : Reader.Spaced ts)
    (h : ofTokens limit ts = .ok row) : Derives ts row := by
  unfold ofTokens at h
  split at h
  · next s hs => exact (Reader.reads_of_run spaced hs).derives h
  · cases h

end Dotwork.Row
