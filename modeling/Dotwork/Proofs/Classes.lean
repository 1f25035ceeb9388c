import Dotwork.Proofs.Viability

/-!
# The classes of structural faults

The class of the fault that a list of tokens has follows from which lists are rows, without a reader. Parentheses
are unbalanced where closing ones would make a row of the list, or where one closes nothing; a separator is missing
where a count touches a cluster; input trails where a symbol stands behind a row; and all else is unexpected.
-/

namespace Dotwork.Row

/-! ### Classes -/

/-- With some closing parentheses behind them the tokens make up a row. -/
def Closable (limit : Nat) (ts : List (Located Token)) : Prop :=
  ∃ cs : List (Located Token), cs ≠ [] ∧ (∀ c ∈ cs, c.value = .rightParen) ∧ Accepted limit (ts ++ cs)

def EndsWithSymbol (ts : List (Located Token)) : Prop :=
  ∃ front x p, ts = front ++ [⟨.symbol x, p⟩]

def EndsWithSymbolBlank (ts : List (Located Token)) : Prop :=
  ∃ front x p q, ts = front ++ [⟨.symbol x, p⟩, ⟨.blank, q⟩]

/-- The token `t` is a closing parenthesis behind a row. -/
def ClosesNothing (limit : Nat) (before : List (Located Token)) (t : Located Token) : Prop :=
  t.value = .rightParen ∧ Accepted limit before

/-- The token `t` begins a count directly behind a cluster. -/
def Touches (before : List (Located Token)) (t : Located Token) : Prop :=
  t.value.BeginsCount ∧ EndsWithSymbol before

/-- The token `t` is a symbol behind a row, and not behind a cluster and a blank. -/
def Trails (limit : Nat) (before : List (Located Token)) (t : Located Token) : Prop :=
  (∃ x, t.value = .symbol x) ∧ Accepted limit before ∧ ¬EndsWithSymbolBlank before

/-- How the class of the fault follows from the first token that no row has at its place. -/
structure ClassifiedAt (limit : Nat) (before : List (Located Token)) (t : Located Token) (code : Diagnostic.Code) :
    Prop where
  unbalanced : code = .unbalancedParens ↔ ClosesNothing limit before t
  missing : code = .missingSeparator ↔ Touches before t
  trailing : code = .trailingInput ↔ Trails limit before t
  unexpected : code = .unexpectedToken ↔ ¬ClosesNothing limit before t ∧ ¬Touches before t ∧ ¬Trails limit before t

/-- How the class of the fault of a list follows from which lists are rows. Where no row begins with the list there is
    a first token that no row has at its place, and that settles the class. -/
structure Classified (limit : Nat) (ts : List (Located Token)) (code : Diagnostic.Code) : Prop where
  unbalanced : Viable limit ts → (code = .unbalancedParens ↔ Closable limit ts)
  unexpected : Viable limit ts → (code = .unexpectedToken ↔ ¬Closable limit ts)
  breaks : ¬Viable limit ts → ∃ before t rest, ts = before ++ t :: rest ∧ Breaks limit before t
  broken : ∀ before t rest, ts = before ++ t :: rest → Breaks limit before t → ClassifiedAt limit before t code

theorem Breaks.unique {limit : Nat} {before before' rest rest' : List (Located Token)} {t t' : Located Token}
    (h : Breaks limit before t) (h' : Breaks limit before' t') (hsplit : before ++ t :: rest = before' ++ t' :: rest') :
    before = before' ∧ t = t' := by
  -- Behind the earlier of two places no row could begin with what stands in front of the later one.
  rcases List.append_eq_append_iff.mp hsplit with ⟨_ | ⟨u, us⟩, hfront, hback⟩ | ⟨_ | ⟨u, us⟩, hfront, hback⟩
  · cases hback
    exact ⟨by simpa using hfront.symm, rfl⟩
  · cases hback
    rw [List.append_cons] at hfront
    exact absurd (hfront ▸ h'.viable).of_append h.broken
  · cases hback
    exact ⟨by simpa using hfront, rfl⟩
  · cases hback
    rw [List.append_cons] at hfront
    exact absurd (hfront ▸ h.viable).of_append h'.broken

namespace Reader
variable {limit position : Nat} {s v : State} {f : Fault} {before : List (Located Token)} {t : Located Token}

/-! ### The last tokens -/

theorem step_symbol {x : Symbol} {p : Span} (h : step limit position s ⟨.symbol x, p⟩ = .ok v) :
    ∃ c, v.stand = .behind (.cluster c) := by
  have notStray : ∀ {u : State}, stray position u ≠ .ok v := fun hstray => by
    unfold stray at hstray
    split at hstray <;> cases hstray
  unfold step at h
  split at h
  · exact absurd h notStray
  · simp only [stepLead] at h
    split at h
    · cases h
      exact ⟨_, rfl⟩
    · cases h
  · exact absurd h notStray
  · simp only [stepBehindBlank] at h
    split at h
    · exact absurd h notStray
    · cases h
  · simp [stepBehindJoin, Token.isBlank, Token.startsTerm] at h
  · simp [stepBehindJoin, Token.startsTerm] at h

theorem Behind.endsWithSymbol {done : List Entry} {c : Cluster} {ws : List (Located Token)}
    (h : Behind done (.cluster c) ws) : EndsWithSymbol ws := by
  obtain ⟨front, w, words, rfl, -, writes⟩ := h
  generalize hwords : w :: words = all at writes
  obtain _ | @⟨lead, _, _, _, _, _, x, p, -, tie, terms⟩ := writes
  obtain rfl := terms.eq_nil_iff.mpr rfl
  cases tie
  exact ⟨front ++ lead, x, p, by simp⟩

theorem endsWithSymbol_iff (hrun : run limit 0 Reader.start before = .ok s) (reads : Reads s before) :
    EndsWithSymbol before ↔ ∃ c, s.stand = .behind (.cluster c) := by
  constructor
  · rintro ⟨front, x, p, rfl⟩
    obtain ⟨u, -, hstep⟩ := exists_of_run_concat hrun
    exact step_symbol hstep
  · rintro ⟨c, hs⟩
    obtain ⟨outer, inner, rfl, -, hat⟩ := reads
    rw [hs] at hat
    obtain ⟨front, x, p, rfl⟩ := Behind.endsWithSymbol hat
    exact ⟨outer ++ front, x, p, by simp⟩

theorem endsWithSymbolBlank_iff (hrun : run limit 0 Reader.start before = .ok s) (reads : Reads s before) :
    EndsWithSymbolBlank before ↔ ∃ c blank, s.stand = .behindBlank (.cluster c) blank := by
  constructor
  · rintro ⟨front, x, p, q, rfl⟩
    rw [List.append_cons] at hrun
    obtain ⟨u, hu, hblank⟩ := exists_of_run_concat hrun
    obtain ⟨w, -, hsymbol⟩ := exists_of_run_concat hu
    obtain ⟨c, hc⟩ := step_symbol hsymbol
    simp only [step, hc, stepBehind, Except.ok.injEq] at hblank
    exact ⟨c, q, hblank ▸ rfl⟩
  · rintro ⟨c, q, hs⟩
    obtain ⟨outer, inner, rfl, -, hat⟩ := reads
    rw [hs] at hat
    obtain ⟨ws, rfl, behind⟩ := hat
    obtain ⟨front, x, p, rfl⟩ := Behind.endsWithSymbol behind
    exact ⟨outer ++ front, x, p, q, by simp⟩

theorem accepted_iff_of_run (hrun : run limit 0 Reader.start before = .ok s) :
    Accepted limit before ↔ s.Rests ∧ s.frames = [] := by
  rw [accepted_iff]
  constructor
  · rintro ⟨u, hu, rests, outer⟩
    rw [hrun] at hu
    cases hu
    exact ⟨rests, outer⟩
  · rintro ⟨rests, outer⟩
    exact ⟨s, hrun, rests, outer⟩

/-! ### A token that stops the reader -/

theorem Stops.code {u : Token} {cause : Fault.Cause} (h : Stops limit s u cause) (room : s.frames.length < limit)
    (spaced : ∀ last blank, s.stand = .behindBlank last blank → u ≠ .blank) :
    (cause.code = .unbalancedParens ∧ u = .rightParen ∧ s.Rests ∧ s.frames = []) ∨
      (cause.code = .missingSeparator ∧ u.BeginsCount ∧ ∃ c, s.stand = .behind (.cluster c)) ∨
      (cause.code = .trailingInput ∧ (∃ x, u = .symbol x) ∧ (s.Rests ∧ s.frames = []) ∧
        ¬∃ c blank, s.stand = .behindBlank (.cluster c) blank) ∨
      cause.code = .unexpectedToken := by
  cases h with
  | full full => exact absurd room (Nat.not_lt.mpr full)
  | touch c stand begins => exact Or.inr (Or.inl ⟨rfl, begins, c, stand⟩)
  | close rests outer paren => exact Or.inl ⟨rfl, paren, rests, outer⟩
  | symbol x rests outer token joins =>
    exact Or.inr (Or.inr (Or.inl ⟨rfl, ⟨x, token⟩, ⟨rests, outer⟩, fun ⟨c, p, hs⟩ => joins c p hs⟩))
  | blank last blank stand token => exact absurd token (spaced last blank stand)
  | unexpected code => exact Or.inr (Or.inr (Or.inr code))

section StopsAt
variable (h : StopsAt limit before s t f)
include h

theorem StopsAt.fault_eq {g : Fault} (hg : step limit before.length s t = .error g) : f = g :=
  Except.error.inj (h.stops.symm.trans hg)

theorem StopsAt.code_of_closesNothing (hc : ClosesNothing limit before t) : f.cause.code = .unbalancedParens := by
  obtain ⟨ht, accepted⟩ := hc
  obtain ⟨u, p⟩ := t
  obtain rfl : u = .rightParen := ht
  obtain ⟨rests, outer⟩ := (accepted_iff_of_run h.takes).mp accepted
  rw [h.fault_eq (step_strayClose limit before.length rests outer p)]
  rfl

theorem StopsAt.code_of_touches (hc : Touches before t) : f.cause.code = .missingSeparator := by
  obtain ⟨ht, symbol⟩ := hc
  obtain ⟨c, hs⟩ := (endsWithSymbol_iff h.takes h.reads).mp symbol
  rw [h.fault_eq (step_joinMissing limit before.length hs ht)]
  rfl

theorem StopsAt.code_of_trails (hc : Trails limit before t) : f.cause.code = .trailingInput := by
  obtain ⟨⟨x, ht⟩, accepted, noBlank⟩ := hc
  obtain ⟨u, p⟩ := t
  obtain rfl : u = .symbol x := ht
  obtain ⟨rests, outer⟩ := (accepted_iff_of_run h.takes).mp accepted
  have joins : ∀ c blank, s.stand ≠ .behindBlank (.cluster c) blank := fun c blank hs =>
    noBlank ((endsWithSymbolBlank_iff h.takes h.reads).mpr ⟨c, blank, hs⟩)
  rw [h.fault_eq (step_trailing limit before.length rests outer joins x p)]
  rfl

theorem StopsAt.ne_blank (spaced : Spaced (before ++ [t])) {last : Term} {blank : Span}
    (hs : s.stand = .behindBlank last blank) : t.value ≠ .blank := by
  intro ht
  obtain ⟨outer, inner, rfl, -, hat⟩ := h.reads
  rw [hs] at hat
  obtain ⟨ws, rfl, -⟩ := hat
  rw [Spaced, ← List.append_assoc, List.append_assoc] at spaced
  exact (List.isChain_append_cons_cons.mp spaced).2.1 ⟨rfl, ht⟩

theorem StopsAt.cases_code (deep : before.length < limit) (spaced : Spaced (before ++ [t])) :
    (f.cause.code = .unbalancedParens ∧ ClosesNothing limit before t) ∨
      (f.cause.code = .missingSeparator ∧ Touches before t) ∨
      (f.cause.code = .trailingInput ∧ Trails limit before t) ∨ f.cause.code = .unexpectedToken := by
  have room := Nat.lt_of_le_of_lt h.reads.room.1 deep
  simp only [ClosesNothing, Touches, Trails, accepted_iff_of_run h.takes, endsWithSymbol_iff h.takes h.reads,
    endsWithSymbolBlank_iff h.takes h.reads]
  exact h.stopsWith.1.code room fun _ _ hs => h.ne_blank spaced hs

/-- The first three classes are those of their conditions, and none of these conditions holds where the class is the
    fourth one. -/
theorem StopsAt.classified (deep : before.length < limit) (spaced : Spaced (before ++ [t])) :
    ClassifiedAt limit before t f.cause.code := by
  have cases_code := h.cases_code deep spaced
  have unbalanced : f.cause.code = .unbalancedParens ↔ ClosesNothing limit before t :=
    ⟨fun hc => by simpa [hc] using cases_code, h.code_of_closesNothing⟩
  have missing : f.cause.code = .missingSeparator ↔ Touches before t :=
    ⟨fun hc => by simpa [hc] using cases_code, h.code_of_touches⟩
  have trailing : f.cause.code = .trailingInput ↔ Trails limit before t :=
    ⟨fun hc => by simpa [hc] using cases_code, h.code_of_trails⟩
  refine ⟨unbalanced, missing, trailing, ?_⟩
  rw [← unbalanced, ← missing, ← trailing]
  rcases cases_code with ⟨hc, -⟩ | ⟨hc, -⟩ | ⟨hc, -⟩ | hc <;> simp [hc]

end StopsAt

/-! ### A reader at the end of the tokens -/

theorem rests_of_step_close {p : Span} (h : step limit position s ⟨.rightParen, p⟩ = .ok v) : s.Rests := by
  unfold step at h
  split at h
  · next hs => exact Or.inl hs
  · cases h
  · next last hs => exact Or.inr (Or.inl ⟨last, hs⟩)
  · next last blank hs => exact Or.inr (Or.inr ⟨last, blank, hs⟩)
  · simp [stepBehindJoin, Token.isBlank, Token.startsTerm] at h
  · simp [stepBehindJoin, Token.startsTerm] at h

/-- Closing parentheses are what is missing exactly where the reader rests inside a group. -/
theorem closable_iff (hrun : run limit 0 Reader.start before = .ok s) (notAccepted : ¬Accepted limit before) :
    Closable limit before ↔ s.Rests := by
  constructor
  · rintro ⟨cs, hne, hcs, accepted⟩
    obtain ⟨w, hw, -, -⟩ := accepted_iff.mp accepted
    obtain ⟨u, hu, hrest⟩ := exists_of_run_append hw
    rw [hrun] at hu
    cases hu
    cases cs with
    | nil => exact absurd rfl hne
    | cons c cs =>
      obtain ⟨x, p⟩ := c
      obtain rfl : x = .rightParen := hcs _ List.mem_cons_self
      simp only [run] at hrest
      split at hrest
      · next hstep => exact rests_of_step_close hstep
      · cases hrest
  · intro rests
    refine ⟨_, fun hnil => notAccepted ?_, fun c hc => ?_, accepted_of_run_rests hrun rests⟩
    · have outer := List.length_eq_zero_iff.mp (List.replicate_eq_nil_iff _ |>.mp hnil)
      exact (accepted_iff_of_run hrun).mpr ⟨rests, outer⟩
    · rw [List.eq_of_mem_replicate hc]

end Reader

/-! ### Every fault -/

/-- The class of every structural fault follows from which lists are rows. -/
theorem classified_of_ofTokens {limit : Nat} {ts : List (Located Token)} {f : Fault} (admissible : Admissible ts)
    (deep : ts.length ≤ limit) (h : ofTokens limit ts = .error f) :
    ∃ code, (f.diagnostic ts).code = some code ∧ Classified limit ts code := by
  refine ⟨f.cause.code, rfl, ?_⟩
  rcases Reader.exists_of_ofTokens_error admissible h with ⟨s, hs, reads, hfinish⟩ | ⟨before, t, rest, s, rfl, stops⟩
  · have viable := Reader.viable_of_run hs (reads.room.2.imp_right fun room => Nat.lt_of_lt_of_le room deep)
    have notAccepted : ¬Accepted limit ts := fun ⟨row, hrow⟩ => by
      rw [h] at hrow
      cases hrow
    have closable := Reader.closable_iff hs notAccepted
    obtain ⟨unbalanced, unexpected⟩ := Reader.finish_code hfinish
    refine ⟨fun _ => unbalanced.trans closable.symm, fun _ => unexpected.trans closable.symm.not,
      fun hv => absurd viable hv, ?_⟩
    rintro before t rest rfl breaks
    rw [List.append_cons] at viable
    exact absurd viable.of_append breaks.broken
  · rw [List.length_append, List.length_cons] at deep
    have breaks := stops.breaks (by omega)
    have notViable : ¬Viable limit (before ++ t :: rest) := fun viable => by
      rw [List.append_cons] at viable
      exact breaks.broken viable.of_append
    have spaced : Reader.Spaced (before ++ [t]) := by
      have := admissible.spaced
      rw [List.append_cons] at this
      exact this.left_of_append
    refine ⟨fun hv => absurd hv notViable, fun hv => absurd hv notViable, fun _ => ⟨before, t, rest, rfl, breaks⟩, ?_⟩
    intro before' t' rest' hsplit breaks'
    -- The reader stops where the list breaks, and it breaks at no other place.
    obtain ⟨rfl, rfl⟩ := breaks.unique breaks' hsplit
    exact stops.classified (by omega) spaced

/-- The tokens of `(1b2`: a count that touches a cluster inside a group that is open. -/
theorem classified_of_touching_count :
    let ts : List (Located Token) := [⟨.leftParen, ⟨0, 1⟩⟩, ⟨.integer 1, ⟨1, 2⟩⟩,
      ⟨.symbol ⟨'b', by decide +kernel⟩, ⟨2, 3⟩⟩, ⟨.integer 2, ⟨3, 4⟩⟩]
    let f : Fault := ⟨.joinMissing ⟨1, 3⟩, 3, 3⟩
    Admissible ts ∧ ts.length ≤ 4 ∧ ofTokens 4 ts = .error f ∧
      ∃ code, (f.diagnostic ts).code = some code ∧ Classified 4 ts code := by
  intro ts f
  have admissible : Admissible ts := by
    constructor
    · simp [Reader.Spaced, ts]
    · simp [Bounded, Token.InRange, Word.greatestSigned, ts]
  exact ⟨admissible, by decide, rfl, classified_of_ofTokens admissible (by decide) rfl⟩

end Dotwork.Row
