import Dotwork.Proofs.Viability

/-!
# Runs of blanks

A line has one blank for each run of blanks, but a list of tokens may repeat them. Where a row begins a reader passes
over any number of blanks, and everywhere else it takes no two in a row. So a list of tokens makes up the same row as
the list with one blank for each run, if no run of two or more stands anywhere but at the start of a row, and none
otherwise.
-/

namespace Dotwork

theorem Token.isBlank_iff {v : Token} : v.isBlank ↔ v = .blank := by
  cases v <;> simp [Token.isBlank]

namespace Tokens

/-- The tokens with one blank, the last one, for each run of blanks. -/
def collapse : List (Located Token) → List (Located Token)
  | [] => []
  | t :: rest =>
    if t.value.isBlank && rest.head?.any (·.value.isBlank) then collapse rest else t :: collapse rest

/-- Behind the tokens, blanks at their end aside, a row begins: they open the line or a group. -/
def BeginRow (before : List (Located Token)) : Prop :=
  ∀ t ∈ before.reverse.find? (!·.value.isBlank), t.value = .leftParen

/-- Two blanks stand side by side at the start of a row only. -/
def RepeatAtStarts (ts : List (Located Token)) : Prop :=
  ∀ before b c after, ts = before ++ b :: c :: after → b.value = .blank → c.value = .blank → BeginRow before

theorem repeats_iff {t : Located Token} {rest : List (Located Token)} :
    (t.value.isBlank && rest.head?.any (·.value.isBlank)) = true ↔
      t.value = .blank ∧ ∃ c after, rest = c :: after ∧ c.value = .blank := by
  cases rest <;> simp [Token.isBlank_iff]

theorem beginRow_concat {before : List (Located Token)} {t : Located Token} :
    BeginRow (before ++ [t]) ↔ t.value = .leftParen ∨ t.value = .blank ∧ BeginRow before := by
  unfold BeginRow
  rw [List.reverse_concat, List.find?_cons]
  obtain ⟨v, p⟩ := t
  cases v <;> simp [Token.isBlank]

end Tokens

namespace Row.Reader
variable {limit p q : Nat} {s s' u : State} {t b c : Located Token} {ts : List (Located Token)}

/-! ### The positions of tokens -/

def Lead.unnumbered (l : Lead) : Lead :=
  { l with position := 0 }

def Frame.unnumbered (f : Frame) : Frame :=
  { f with position := 0 }

def Stand.unnumbered : Stand → Stand
  | .lead l => .lead l.unnumbered
  | .fresh => .fresh
  | .behind t => .behind t
  | .behindBlank t blank => .behindBlank t blank
  | .behindPlus t join => .behindPlus t join
  | .behindPlusBlank t join => .behindPlusBlank t join

/-- What a reader holds but for the positions of tokens, on which no more than its faults depend. -/
def State.unnumbered (s : State) : State :=
  ⟨s.frames.map Frame.unnumbered, s.done, s.stand.unnumbered⟩

/-- The state that is reached, if one is, but for the positions of tokens. -/
def reached (r : Except Fault State) : Option State :=
  r.toOption.map State.unnumbered

theorem map_unnumbered (frames : List Frame) :
    (frames.map Frame.unnumbered).map Frame.unnumbered = frames.map Frame.unnumbered := by
  rw [List.map_map]
  rfl

theorem unnumbered_stand {stand stand' : Stand} (h : stand'.unnumbered = stand.unnumbered) :
    State.unnumbered { s.unnumbered with stand := stand' } = State.unnumbered { s with stand } := by
  simp only [State.unnumbered, map_unnumbered, h]

theorem unnumbered_unnumbered (s : State) : s.unnumbered.unnumbered = s.unnumbered := by
  obtain ⟨frames, done, stand⟩ := s
  exact unnumbered_stand (s := ⟨frames, done, stand⟩) (by cases stand <;> rfl)

theorem row_unnumbered (s : State) : s.unnumbered.row = s.row := by
  obtain ⟨frames, done, stand⟩ := s
  cases stand <;> rfl

theorem reached_ok {s s' : State} (h : s'.unnumbered = s.unnumbered) : reached (.ok s) = reached (.ok s') :=
  congrArg some h.symm

theorem reached_ite {c : Prop} [Decidable c] {r r' e e' : Except Fault State} (holds : reached r = reached r')
    (fails : reached e = reached e') : reached (if c then r else e) = reached (if c then r' else e') := by
  split
  · exact holds
  · exact fails

theorem reached_stray (p q : Nat) (s s' : State) : reached (stray p s) = reached (stray q s') := by
  unfold stray
  cases s.frames <;> cases s'.frames <;> rfl

section Unnumbered
variable (limit p q s t)

theorem reached_openGroup (paren first : Span) (sign : Option (Located Sign)) (magnitude : Option (Located Int)) :
    reached (openGroup limit p paren first sign magnitude s) =
      reached (openGroup limit q paren first sign magnitude s.unnumbered) := by
  have depth : s.unnumbered.frames.length = s.frames.length := List.length_map _
  rw [openGroup, openGroup, depth]
  split
  · refine reached_ok ?_
    simp only [State.unnumbered, List.map_cons, map_unnumbered]
    rfl
  · rfl

theorem reached_closeGroup (paren : Span) :
    reached (closeGroup p paren s) = reached (closeGroup q paren s.unnumbered) := by
  unfold closeGroup
  rw [row_unnumbered]
  obtain ⟨frames, done, stand⟩ := s
  cases frames with
  | nil => rfl
  | cons f frames =>
    refine reached_ok ?_
    simp only [State.unnumbered, map_unnumbered]
    rfl

theorem reached_beginTerm : reached (beginTerm limit p t s) = reached (beginTerm limit q t s.unnumbered) := by
  obtain ⟨v, place⟩ := t
  cases v with
  | integer n => exact reached_ite (reached_ok (unnumbered_stand rfl)) rfl
  | plus | minus => exact reached_ok (unnumbered_stand rfl)
  | leftParen => exact reached_openGroup ..
  | symbol | rightParen | blank => exact reached_stray ..

theorem reached_stepLead (l : Lead) :
    reached (stepLead limit p l t s) = reached (stepLead limit q l.unnumbered t s.unnumbered) := by
  have count : l.unnumbered.clusterCount = l.clusterCount := rfl
  have magnitude : l.unnumbered.magnitude = l.magnitude := rfl
  obtain ⟨v, place⟩ := t
  cases v with
  | minus | integer => exact reached_ite (reached_ok (unnumbered_stand rfl)) rfl
  | symbol x =>
    simp only [stepLead, count]
    cases l.clusterCount with
    | ok n => exact reached_ok (unnumbered_stand rfl)
    | error cause => rfl
  | leftParen =>
    simp only [stepLead, magnitude]
    cases l.magnitude with
    | ok m => exact reached_openGroup ..
    | error cause => rfl
  | plus | rightParen | blank => rfl

theorem reached_stepBehind (last : Term) :
    reached (stepBehind limit p last t s) = reached (stepBehind limit q last t s.unnumbered) := by
  obtain ⟨v, place⟩ := t
  cases v with
  | blank | plus => exact reached_ok (unnumbered_stand rfl)
  | rightParen => exact reached_closeGroup ..
  | leftParen => exact reached_beginTerm limit p q (tie last none s) ⟨.leftParen, place⟩
  | integer n => exact reached_ite (reached_beginTerm limit p q (tie last none s) ⟨.integer n, place⟩) rfl
  | minus => exact reached_ite (reached_beginTerm limit p q (tie last none s) ⟨.minus, place⟩) rfl
  | symbol => exact reached_stray ..

theorem reached_stepBehindBlank (last : Term) (blank : Span) :
    reached (stepBehindBlank limit p last blank t s) =
      reached (stepBehindBlank limit q last blank t s.unnumbered) := by
  obtain ⟨v, place⟩ := t
  cases v with
  | plus => exact reached_ok (unnumbered_stand rfl)
  | rightParen => exact reached_closeGroup ..
  | leftParen => exact reached_beginTerm limit p q (tie last none s) ⟨.leftParen, place⟩
  | integer n => exact reached_beginTerm limit p q (tie last _ s) ⟨.integer n, place⟩
  | minus => exact reached_beginTerm limit p q (tie last _ s) ⟨.minus, place⟩
  | symbol | blank => exact reached_ite (reached_stray ..) rfl

theorem reached_stepBehindJoin (last : Term) (join : Span) :
    reached (stepBehindJoin limit p last join t s) = reached (stepBehindJoin limit q last join t s.unnumbered) :=
  reached_ite (reached_beginTerm limit p q (tie last _ s) t) rfl

/-- A step depends on the positions of tokens in its faults only. -/
theorem reached_step : reached (step limit p s t) = reached (step limit q s.unnumbered t) := by
  obtain ⟨frames, done, stand⟩ := s
  cases stand with
  | fresh =>
    obtain ⟨v, place⟩ := t
    cases v with
    | blank => exact reached_ok (unnumbered_unnumbered ⟨frames, done, .fresh⟩)
    | rightParen => exact reached_closeGroup p q ⟨frames, done, .fresh⟩ place
    | integer n => exact reached_beginTerm limit p q ⟨frames, done, .fresh⟩ ⟨.integer n, place⟩
    | plus => exact reached_beginTerm limit p q ⟨frames, done, .fresh⟩ ⟨.plus, place⟩
    | minus => exact reached_beginTerm limit p q ⟨frames, done, .fresh⟩ ⟨.minus, place⟩
    | leftParen => exact reached_beginTerm limit p q ⟨frames, done, .fresh⟩ ⟨.leftParen, place⟩
    | symbol x => exact reached_beginTerm limit p q ⟨frames, done, .fresh⟩ ⟨.symbol x, place⟩
  | lead l => exact reached_stepLead limit p q ⟨frames, done, .lead l⟩ t l
  | behind last => exact reached_stepBehind limit p q ⟨frames, done, .behind last⟩ t last
  | behindBlank last blank =>
    exact reached_stepBehindBlank limit p q ⟨frames, done, .behindBlank last blank⟩ t last blank
  | behindPlus last join =>
    exact reached_ite (reached_ok (unnumbered_stand (s := ⟨frames, done, .behindPlus last join⟩) rfl))
      (reached_stepBehindJoin limit p q ⟨frames, done, .behindPlus last join⟩ t last join)
  | behindPlusBlank last join =>
    exact reached_stepBehindJoin limit p q ⟨frames, done, .behindPlusBlank last join⟩ t last join

end Unnumbered

theorem reached_step_congr {s₁ s₂ : State} (h : s₁.unnumbered = s₂.unnumbered) (p q : Nat) :
    reached (step limit p s₁ t) = reached (step limit q s₂ t) := by
  rw [reached_step limit p 0 s₁ t, h, ← reached_step limit q 0 s₂ t]

theorem rests_unnumbered : s.unnumbered.Rests ↔ s.Rests := by
  obtain ⟨frames, done, stand⟩ := s
  cases stand <;> simp [State.Rests, State.unnumbered, Stand.unnumbered]

/-! ### Where a row begins -/

theorem fresh_of_openGroup {paren first : Span} {sign : Option (Located Sign)} {magnitude : Option (Located Int)}
    (h : openGroup limit p paren first sign magnitude s = .ok s') : s'.stand = .fresh := by
  unfold openGroup at h
  split at h
  · cases h
    rfl
  · cases h

theorem not_fresh_of_closeGroup {paren : Span} (h : closeGroup p paren s = .ok s') : s'.stand ≠ .fresh := by
  unfold closeGroup at h
  split at h
  · cases h
  · cases h
    simp

theorem stray_ne_ok : stray p s ≠ .ok s' := by
  unfold stray
  split <;> simp

theorem fresh_of_beginTerm (h : beginTerm limit p t s = .ok s') :
    t.value ≠ .blank ∧ (s'.stand = .fresh ↔ t.value = .leftParen) := by
  obtain ⟨v, place⟩ := t
  cases v with
  | integer n =>
    simp only [beginTerm] at h
    split at h
    · cases h
      simp
    · cases h
  | plus | minus =>
    cases h
    simp
  | leftParen => simp [fresh_of_openGroup h]
  | symbol | rightParen | blank => exact absurd h stray_ne_ok

theorem fresh_of_stepLead {l : Lead} (h : stepLead limit p l t s = .ok s') :
    t.value ≠ .blank ∧ (s'.stand = .fresh ↔ t.value = .leftParen) := by
  obtain ⟨v, place⟩ := t
  cases v with
  | minus | integer | symbol =>
    simp only [stepLead] at h
    split at h
    · cases h
      simp
    · cases h
  | leftParen =>
    simp only [stepLead] at h
    split at h
    · simp [fresh_of_openGroup h]
    · cases h
  | plus | rightParen | blank => cases h

theorem fresh_of_stepBehind {last : Term} (h : stepBehind limit p last t s = .ok s') :
    s'.stand = .fresh ↔ t.value = .leftParen := by
  obtain ⟨v, place⟩ := t
  cases v with
  | blank | plus =>
    cases h
    simp
  | rightParen => simp [not_fresh_of_closeGroup h]
  | leftParen =>
    simp only [stepBehind] at h
    exact (fresh_of_beginTerm h).2
  | integer | minus =>
    simp only [stepBehind] at h
    split at h
    · exact (fresh_of_beginTerm h).2
    · cases h
  | symbol => exact absurd h stray_ne_ok

theorem fresh_of_stepBehindBlank {last : Term} {blank : Span} (h : stepBehindBlank limit p last blank t s = .ok s') :
    t.value ≠ .blank ∧ (s'.stand = .fresh ↔ t.value = .leftParen) := by
  obtain ⟨v, place⟩ := t
  cases v with
  | plus =>
    cases h
    simp
  | rightParen => simp [not_fresh_of_closeGroup h]
  | leftParen | integer | minus =>
    simp only [stepBehindBlank] at h
    exact fresh_of_beginTerm h
  | symbol | blank =>
    simp only [stepBehindBlank] at h
    split at h
    · exact absurd h stray_ne_ok
    · cases h

theorem fresh_of_stepBehindJoin {last : Term} {join : Span} (h : stepBehindJoin limit p last join t s = .ok s') :
    t.value ≠ .blank ∧ (s'.stand = .fresh ↔ t.value = .leftParen) := by
  unfold stepBehindJoin at h
  split at h
  · exact fresh_of_beginTerm h
  · cases h

/-- A row begins behind an opening parenthesis, and behind a blank where one began before it. -/
theorem fresh_step_iff (h : step limit p s t = .ok s') :
    s'.stand = .fresh ↔ t.value = .leftParen ∨ t.value = .blank ∧ s.stand = .fresh := by
  unfold step at h
  split at h
  · next hs =>
    split at h
    · next ht =>
      cases h
      simp [hs, ht]
    · next ht => simp [ht, not_fresh_of_closeGroup h]
    all_goals
      next ht => simp [hs, fresh_of_beginTerm h]
  · next l hs => simp [hs, (fresh_of_stepLead h).2]
  · next last hs => simp [hs, fresh_of_stepBehind h]
  · next last blank hs => simp [hs, (fresh_of_stepBehindBlank h).2]
  · next last join hs =>
    split at h
    · next hblank =>
      cases h
      simp only [reduceCtorEq, hs, and_false, or_false, false_iff]
      intro ht
      simp [ht, Token.isBlank] at hblank
    · simp [hs, (fresh_of_stepBehindJoin h).2]
  · next last join hs => simp [hs, (fresh_of_stepBehindJoin h).2]

theorem fresh_iff_beginRow (h : run limit 0 start ts = .ok s) : s.stand = .fresh ↔ Tokens.BeginRow ts := by
  refine run_induction (P := fun ws s => s.stand = .fresh ↔ Tokens.BeginRow ws) ?_
    (fun ws t rest s s' _ hws hs => ?_) h
  · simp [start, Tokens.BeginRow]
  · rw [fresh_step_iff hs, Tokens.beginRow_concat, hws]

theorem step_blank_of_fresh (fresh : s.stand = .fresh) (blank : t.value = .blank) : step limit p s t = .ok s := by
  simp only [step, fresh, blank]

/-- Behind a term, and behind a plus, one blank is taken and no second one. -/
theorem fresh_of_two_blanks (hb : b.value = .blank) (hc : c.value = .blank) (first : step limit p s b = .ok s')
    (second : step limit q s' c = .ok u) : s.stand = .fresh := by
  obtain ⟨frames, done, stand⟩ := s
  cases stand with
  | fresh => rfl
  | lead l => exact absurd hb (fresh_of_stepLead first).1
  | behind last =>
    simp only [step, stepBehind, hb] at first
    cases first
    exact absurd hc (fresh_of_stepBehindBlank second).1
  | behindBlank last blank => exact absurd hb (fresh_of_stepBehindBlank first).1
  | behindPlus last join =>
    simp only [step, hb, Token.isBlank, if_pos] at first
    cases first
    exact absurd hc (fresh_of_stepBehindJoin second).1
  | behindPlusBlank last join => exact absurd hb (fresh_of_stepBehindJoin first).1

/-! ### A blank for a run -/

theorem exists_of_run_cons (h : run limit p s (t :: ts) = .ok s') :
    ∃ u, step limit p s t = .ok u ∧ run limit (p + 1) u ts = .ok s' := by
  simp only [run] at h
  split at h
  · next u hu => exact ⟨u, hu, h⟩
  · cases h

/-- Where two blanks stand side by side, the reader is at the start of a row. -/
def FreshAtRepeats (limit p : Nat) (s : State) (ts : List (Located Token)) : Prop :=
  ∀ before b c after u, ts = before ++ b :: c :: after → b.value = .blank → c.value = .blank →
    run limit p s before = .ok u → u.stand = .fresh

theorem FreshAtRepeats.tail (h : FreshAtRepeats limit p s (t :: ts)) (hs : step limit p s t = .ok s') :
    FreshAtRepeats limit (p + 1) s' ts := by
  intro before b c after u hts hb hc hu
  exact h (t :: before) b c after u (by rw [hts, List.cons_append]) hb hc ((run_cons hs).trans hu)

theorem freshAtRepeats_of_run (h : run limit p s ts = .ok s') : FreshAtRepeats limit p s ts := by
  rintro before b c after u rfl hb hc hu
  obtain ⟨u', hu', hrest⟩ := exists_of_run_append h
  cases hu.symm.trans hu'
  obtain ⟨v, first, hrest⟩ := exists_of_run_cons hrest
  obtain ⟨w, second, -⟩ := exists_of_run_cons hrest
  exact fresh_of_two_blanks hb hc first second

theorem freshAtRepeats_of_repeatAtStarts (h : Tokens.RepeatAtStarts ts) : FreshAtRepeats limit 0 start ts :=
  fun before b c after _ hts hb hc hu => (fresh_iff_beginRow hu).mpr (h before b c after hts hb hc)

theorem repeatAtStarts_of_run (h : run limit 0 start ts = .ok s) : Tokens.RepeatAtStarts ts := by
  intro before b c after hts hb hc
  obtain ⟨u, hu, -⟩ := exists_of_run_append (hts ▸ h)
  exact (fresh_iff_beginRow hu).mp (freshAtRepeats_of_run h before b c after u hts hb hc hu)

/-- At the start of a row a second blank changes nothing, and elsewhere there is none to drop. -/
theorem reached_run_collapse (hs : s.unnumbered = s'.unnumbered) (fresh : FreshAtRepeats limit p s ts) :
    reached (run limit p s ts) = reached (run limit q s' (Tokens.collapse ts)) := by
  induction ts generalizing p q s s' with
  | nil => exact congrArg some hs
  | cons t ts ih =>
    unfold Tokens.collapse
    split
    · next repeats =>
      -- The blank stands at the start of a row, so behind it the reader is where it was in front of it.
      obtain ⟨blank, c, after, rfl, hc⟩ := Tokens.repeats_iff.mp repeats
      have hstep : step limit p s t = .ok s := step_blank_of_fresh (fresh [] t c after s rfl blank hc rfl) blank
      rw [run_cons hstep]
      exact ih hs (fresh.tail hstep)
    · -- The token is kept, and both readers take it to states that differ in positions only, or both refuse it.
      have hstep : reached (step limit p s t) = reached (step limit q s' t) := reached_step_congr hs p q
      simp only [run]
      cases h₁ : step limit p s t with
      | error f =>
        cases h₂ : step limit q s' t with
        | error g => rfl
        | ok v => simp [h₁, h₂, reached, Except.toOption] at hstep
      | ok u =>
        cases h₂ : step limit q s' t with
        | error g => simp [h₁, h₂, reached, Except.toOption] at hstep
        | ok v =>
          simp only [h₁, h₂, reached, Except.toOption, Option.map_some, Option.some.injEq] at hstep
          exact ih hstep (fresh.tail h₁)

/-- The row that is read, if one is, is that of every state that differs in positions only. -/
theorem ofTokens_eq_ok_iff {row : Row} :
    ofTokens limit ts = .ok row ↔ ∃ s ∈ reached (run limit 0 start ts), s.Rests ∧ s.frames = [] ∧ s.row = row := by
  constructor
  · intro h
    unfold ofTokens at h
    split at h
    · next s hs =>
      obtain ⟨outer, rests, hrow⟩ := finish_ok h
      refine ⟨s.unnumbered, by rw [hs]; rfl, rests_unnumbered.mpr rests, ?_, (row_unnumbered s).trans hrow⟩
      simp [State.unnumbered, outer]
    · cases h
  · rintro ⟨v, hv, rests, outer, hrow⟩
    unfold ofTokens
    cases hs : run limit 0 start ts with
    | error f => simp [hs, reached, Except.toOption] at hv
    | ok s =>
      simp only [hs, reached, Except.toOption, Option.map_some, Option.mem_some_iff] at hv
      subst hv
      have outer : s.frames = [] := by simpa [State.unnumbered] using outer
      exact (finish_of_rests ts.length (rests_unnumbered.mp rests) outer).trans
        (congrArg Except.ok ((row_unnumbered s).symm.trans hrow))

end Row.Reader

namespace Row

/-- Tokens make up a row if and only if no two blanks stand side by side but at the start of a row, and the tokens
    with one blank for each run of blanks make up the same row. -/
theorem ofTokens_eq_ok_iff_collapse (limit : Nat) (ts : List (Located Token)) (row : Row) :
    ofTokens limit ts = .ok row ↔ ofTokens limit (Tokens.collapse ts) = .ok row ∧ Tokens.RepeatAtStarts ts := by
  have same : Reader.FreshAtRepeats limit 0 Reader.start ts →
      (ofTokens limit ts = .ok row ↔ ofTokens limit (Tokens.collapse ts) = .ok row) := fun fresh => by
    rw [Reader.ofTokens_eq_ok_iff, Reader.ofTokens_eq_ok_iff, Reader.reached_run_collapse rfl fresh]
  constructor
  · intro h
    obtain ⟨s, hs, -⟩ := Reader.accepted_iff.mp ⟨row, h⟩
    exact ⟨(same (Reader.freshAtRepeats_of_run hs)).mp h, Reader.repeatAtStarts_of_run hs⟩
  · rintro ⟨h, repeats⟩
    exact (same (Reader.freshAtRepeats_of_repeatAtStarts repeats)).mpr h

/-- Two blanks at the end of a row: with one of them the tokens make up a row, with both they do not. -/
theorem accepted_collapse_trailing_blanks :
    let ts : List (Located Token) := [⟨.integer 3, ⟨0, 1⟩⟩, ⟨.symbol ⟨'◉', by decide +kernel⟩, ⟨1, 4⟩⟩,
      ⟨.blank, ⟨4, 5⟩⟩, ⟨.blank, ⟨5, 6⟩⟩]
    Bounded ts ∧ Accepted 64 (Tokens.collapse ts) ∧ ¬Accepted 64 ts := by
  intro ts
  refine ⟨?_, ⟨_, rfl⟩, ?_⟩
  · simp [Bounded, Token.InRange, Word.greatestSigned, ts]
  · rintro ⟨row, h⟩
    cases h

end Row

end Dotwork
