import Dotwork.Proofs.Stopping

/-!
# Beginnings of rows

Which lists of tokens can become a row with more tokens behind them. From every place that a reader gets to, some
tokens lead to the end of a row, so a reader stops at the first token that no row has at its place, and what stands
behind that token changes nothing.
-/

namespace Dotwork.Row

/-- The tokens make up a row. -/
def Accepted (limit : Nat) (ts : List (Located Token)) : Prop :=
  ∃ row, ofTokens limit ts = .ok row

/-- A row begins with the tokens. -/
def Viable (limit : Nat) (ts : List (Located Token)) : Prop :=
  ∃ us, Accepted limit us ∧ ts <+: us

/-- The token `t` is the first one, behind `before`, that no row has at its place. -/
structure Breaks (limit : Nat) (before : List (Located Token)) (t : Located Token) : Prop where
  viable : Viable limit before
  broken : ¬Viable limit (before ++ [t])

theorem Viable.of_append {limit : Nat} {before rest : List (Located Token)} (h : Viable limit (before ++ rest)) :
    Viable limit before := by
  obtain ⟨us, accepted, pre⟩ := h
  exact ⟨us, accepted, (List.prefix_append before rest).trans pre⟩

namespace Reader
variable {limit position : Nat} {s : State} {f : Fault} {before : List (Located Token)} {t : Located Token}

/-! ### The end of a row -/

theorem finish_of_rests (position : Nat) (rests : s.Rests) (outer : s.frames = []) :
    finish position s = .ok s.row := by
  rcases rests with h | ⟨t, h⟩ | ⟨t, blank, h⟩ <;> simp only [finish, h, outer]

/-- Where a line ends and no row does, a group is open or the reader is inside a term or a join. -/
theorem finish_code (h : finish position s = .error f) :
    (f.cause.code = .unbalancedParens ↔ s.Rests) ∧ (f.cause.code = .unexpectedToken ↔ ¬s.Rests) := by
  unfold finish at h
  split at h
  · next l hs =>
    cases h
    simp [State.Rests, hs, code_cutOff]
  · next hs =>
    cases h
    simp [State.Rests, hs, Fault.Cause.code]
  · next hs =>
    cases h
    simp [State.Rests, hs, Fault.Cause.code]
  all_goals
    next hs =>
      split at h
      · cases h
      · cases h
        simp [State.Rests, hs, Fault.Cause.code]

theorem accepted_iff {ts : List (Located Token)} :
    Accepted limit ts ↔ ∃ s, run limit 0 Reader.start ts = .ok s ∧ s.Rests ∧ s.frames = [] := by
  constructor
  · rintro ⟨row, h⟩
    unfold ofTokens at h
    split at h
    · next s hs =>
      obtain ⟨outer, rests, -⟩ := finish_ok h
      exact ⟨s, hs, rests, outer⟩
    · cases h
  · rintro ⟨s, hs, rests, outer⟩
    refine ⟨s.row, ?_⟩
    simp only [ofTokens, hs, finish_of_rests ts.length rests outer]

theorem exists_of_run_append {v : State} {rest : List (Located Token)}
    (h : run limit position s (before ++ rest) = .ok v) :
    ∃ u, run limit position s before = .ok u ∧ run limit (position + before.length) u rest = .ok v := by
  rw [run_append] at h
  split at h
  · next u hu => exact ⟨u, hu, h⟩
  · cases h

theorem exists_of_run_concat {v : State} (h : run limit 0 Reader.start (before ++ [t]) = .ok v) :
    ∃ u, run limit 0 Reader.start before = .ok u ∧ step limit before.length u t = .ok v := by
  obtain ⟨u, hu, hlast⟩ := exists_of_run_append h
  rw [Nat.zero_add] at hlast
  simp only [run] at hlast
  split at hlast
  · next w hw =>
    cases hlast
    exact ⟨u, hu, hw⟩
  · cases hlast

/-! ### Ways to the end of a row -/

section Open
variable (limit position : Nat)

theorem exists_openGroup (paren first : Span) (sign : Option (Located Sign)) (magnitude : Option (Located Int))
    (room : s.frames.length < limit) :
    ∃ v, openGroup limit position paren first sign magnitude s = .ok v ∧ v.Rests := by
  rw [openGroup, if_pos room]
  exact ⟨_, rfl, Or.inl rfl⟩

theorem Lead.exists_magnitude {l : Lead} {count : Located Nat} (h : l.count = some count) :
    ∃ magnitude, l.magnitude = .ok magnitude := by
  cases hn : l.negation <;> simp [Lead.magnitude, h, hn]

theorem exists_step_lead {l : Lead} {count : Located Nat} (hs : s.stand = .lead l) (hcount : l.count = some count)
    (room : s.frames.length < limit) : ∃ v, step limit position s ⟨.leftParen, default⟩ = .ok v ∧ v.Rests := by
  obtain ⟨magnitude, hm⟩ := Lead.exists_magnitude hcount
  simp only [step, hs, stepLead, hm]
  exact exists_openGroup limit position _ _ _ _ room

theorem exists_step_join {last : Term} {join : Span}
    (hs : s.stand = .behindPlus last join ∨ s.stand = .behindPlusBlank last join) (room : s.frames.length < limit) :
    ∃ v, step limit position s ⟨.leftParen, default⟩ = .ok v ∧ v.Rests := by
  rw [enters_behindPlus rfl hs limit position]
  exact exists_openGroup (s := tie last _ s) limit position _ _ _ _ room

/-- From inside a term or a join a group leads to a place of rest, if one more group may be open. Where a term has
    no count yet, one stands in front of the parenthesis. -/
theorem exists_run_rests (room : s.Rests ∨ s.frames.length < limit) :
    ∃ ws v, run limit position s ws = .ok v ∧ v.Rests := by
  rcases room with rests | room
  · exact ⟨[], s, rfl, rests⟩
  have single : (∃ v, step limit position s ⟨.leftParen, default⟩ = .ok v ∧ v.Rests) →
      ∃ ws v, run limit position s ws = .ok v ∧ v.Rests := fun ⟨v, hv, rests⟩ =>
    ⟨[⟨.leftParen, default⟩], v, by simp only [run, hv], rests⟩
  cases hs : s.stand with
  | fresh => exact ⟨[], s, rfl, Or.inl hs⟩
  | behind last => exact ⟨[], s, rfl, Or.inr (Or.inl ⟨last, hs⟩)⟩
  | behindBlank last blank => exact ⟨[], s, rfl, Or.inr (Or.inr ⟨last, blank, hs⟩)⟩
  | behindPlus last join => exact single (exists_step_join limit position (Or.inl hs) room)
  | behindPlusBlank last join => exact single (exists_step_join limit position (Or.inr hs) room)
  | lead l =>
    cases hcount : l.count with
    | some count => exact single (exists_step_lead limit position hs hcount room)
    | none =>
      have counted : step limit position s ⟨.integer 0, default⟩ =
          .ok { s with stand := .lead { l with count := some ⟨0, default⟩ } } := by
        simp [step, hs, stepLead, hcount]
      obtain ⟨v, hv, rests⟩ := exists_step_lead limit (position + 1)
        (s := { s with stand := .lead { l with count := some ⟨0, default⟩ } }) rfl rfl room
      exact ⟨[⟨.integer 0, default⟩, ⟨.leftParen, default⟩], v, by simp only [run, counted, hv], rests⟩

end Open

/-- From a place of rest closing parentheses lead to the end of a row, one for each open group. -/
theorem exists_run_close (limit : Nat) {fs : List Frame} :
    ∀ (position : Nat) {s : State}, s.frames = fs → s.Rests →
      ∃ v, run limit position s (List.replicate fs.length ⟨.rightParen, default⟩) = .ok v ∧ v.Rests ∧ v.frames = [] := by
  induction fs with
  | nil => exact fun _ s hs rests => ⟨s, rfl, rests, hs⟩
  | cons f fs ih =>
    intro position s hs rests
    -- Behind a closing parenthesis the reader rests again, in one group less.
    obtain ⟨u, hu, hframes, hrests⟩ : ∃ u, step limit position s ⟨.rightParen, default⟩ = .ok u ∧ u.frames = fs ∧
        u.Rests := by
      rw [step_close limit position rests, closeGroup, hs]
      exact ⟨_, rfl, rfl, Or.inr (Or.inl ⟨_, rfl⟩)⟩
    obtain ⟨v, hv, hend⟩ := ih (position + 1) hframes hrests
    refine ⟨v, ?_, hend⟩
    rw [List.length_cons, List.replicate_succ, run_cons hu]
    exact hv

theorem accepted_of_run_rests (hrun : run limit 0 Reader.start before = .ok s) (rests : s.Rests) :
    Accepted limit (before ++ List.replicate s.frames.length ⟨.rightParen, default⟩) := by
  obtain ⟨v, hv, hrests, outer⟩ := exists_run_close limit (0 + before.length) rfl rests
  exact accepted_iff.mpr ⟨v, run_trans hrun hv, hrests, outer⟩

/-- What a reader takes can become a row, if one more group may be open. -/
theorem viable_of_run (hrun : run limit 0 Reader.start before = .ok s) (room : s.Rests ∨ s.frames.length < limit) :
    Viable limit before := by
  obtain ⟨ws, v, hv, rests⟩ := exists_run_rests limit (0 + before.length) room
  exact ⟨_, accepted_of_run_rests (run_trans hrun hv) rests, by simp [List.append_assoc]⟩

/-! ### Room for one more group -/

theorem Frames.length_le {fs : List Frame} {outer : List (Located Token)} (h : Frames fs outer) :
    fs.length ≤ outer.length := by
  induction h with
  | nil => exact Nat.le_refl 0
  | cons _ _ _ _ _ ih =>
    simp only [List.length_cons, List.length_append, List.length_nil]
    omega

theorem Reads.room {ws : List (Located Token)} (h : Reads s ws) :
    s.frames.length ≤ ws.length ∧ (s.Rests ∨ s.frames.length < ws.length) := by
  obtain ⟨outer, inner, rfl, frames, hat⟩ := h
  -- The parentheses of the open groups are in `outer`; inside a term or a join `inner` has a token besides.
  have hlength := frames.length_le
  rw [List.length_append]
  refine ⟨by omega, ?_⟩
  have inside : inner ≠ [] → s.frames.length < outer.length + inner.length := fun hne => by
    have := List.length_pos_iff.mpr hne
    omega
  cases hs : s.stand with
  | fresh => exact Or.inl (Or.inl hs)
  | behind last => exact Or.inl (Or.inr (Or.inl ⟨last, hs⟩))
  | behindBlank last blank => exact Or.inl (Or.inr (Or.inr ⟨last, blank, hs⟩))
  | lead l =>
    rw [hs] at hat
    obtain ⟨formed, before, rfl, -⟩ := hat
    obtain ⟨w, words, hw, -⟩ := formed.start
    exact Or.inr (inside (by simp [hw]))
  | behindPlus last join =>
    rw [hs] at hat
    obtain ⟨ws, a, p, rfl, -⟩ := hat
    exact Or.inr (inside (by simp))
  | behindPlusBlank last join =>
    rw [hs] at hat
    obtain ⟨ws, a, p, q, rfl, -⟩ := hat
    exact Or.inr (inside (by simp))

theorem Reads.lead_le {ws : List (Located Token)} (h : Reads s ws) :
    ∀ l, s.stand = .lead l → l.position ≤ ws.length := by
  intro l hs
  obtain ⟨outer, inner, rfl, -, hat⟩ := h
  rw [hs] at hat
  obtain ⟨-, before, rfl, position, -⟩ := hat
  simp only [List.length_append]
  omega

/-! ### Where reading fails -/

theorem exists_of_run_error {ts : List (Located Token)} (h : run limit position s ts = .error f) :
    ∃ before t rest u, ts = before ++ t :: rest ∧ run limit position s before = .ok u ∧
      step limit (position + before.length) u t = .error f := by
  induction ts generalizing position s with
  | nil => cases h
  | cons t ts ih =>
    simp only [run] at h
    split at h
    · next u hu =>
      obtain ⟨before, t', rest, v, rfl, hv, herror⟩ := ih h
      refine ⟨t :: before, t', rest, v, rfl, by rw [run_cons hu, hv], ?_⟩
      rwa [List.length_cons, Nat.add_comm before.length 1, ← Nat.add_assoc]
    · next g hg =>
      cases h
      exact ⟨[], t, ts, s, rfl, rfl, hg⟩

theorem ofTokens_of_step_error (hrun : run limit 0 Reader.start before = .ok s)
    (hstep : step limit before.length s t = .error f) (rest : List (Located Token)) :
    ofTokens limit (before ++ t :: rest) = .error f := by
  have hstep : step limit (0 + before.length) s t = .error f := by rwa [Nat.zero_add]
  simp only [ofTokens, run_append, hrun, run, hstep]

/-- The reader takes `before` and stops at the token `t`. -/
structure StopsAt (limit : Nat) (before : List (Located Token)) (s : State) (t : Located Token) (f : Fault) : Prop where
  takes : run limit 0 Reader.start before = .ok s
  stops : step limit before.length s t = .error f
  reads : Reads s before

theorem StopsAt.stopsWith (h : StopsAt limit before s t f) : StopsWith limit before.length s t.value f :=
  step_stops h.reads.lead_le h.stops

theorem StopsAt.breaks (h : StopsAt limit before s t f) (deep : before.length ≤ limit) : Breaks limit before t where
  viable := viable_of_run h.takes (h.reads.room.2.imp_right fun room => Nat.lt_of_lt_of_le room deep)
  broken := by
    rintro ⟨us, ⟨row, hrow⟩, rest, rfl⟩
    rw [List.append_assoc, List.singleton_append, ofTokens_of_step_error h.takes h.stops rest] at hrow
    cases hrow

/-- Tokens that are no row stop the reader, or leave it where no row ends. -/
theorem exists_of_ofTokens_error {ts : List (Located Token)} (admissible : Admissible ts)
    (h : ofTokens limit ts = .error f) :
    (∃ s, run limit 0 Reader.start ts = .ok s ∧ Reads s ts ∧ finish ts.length s = .error f) ∨
      ∃ before t rest s, ts = before ++ t :: rest ∧ StopsAt limit before s t f := by
  unfold ofTokens at h
  split at h
  · next s hs => exact Or.inl ⟨s, hs, reads_of_run admissible.spaced hs, h⟩
  · next g hg =>
    cases h
    obtain ⟨before, t, rest, s, rfl, hs, hstep⟩ := exists_of_run_error hg
    rw [Nat.zero_add] at hstep
    exact Or.inr ⟨before, t, rest, s, rfl, hs, hstep, reads_of_run admissible.spaced.left_of_append hs⟩

end Reader

/-! ### The tokens that settle a diagnostic -/

/-- Every list with the same first `k` tokens is refused with the diagnostic `d`. -/
def Settled (limit k : Nat) (ts : List (Located Token)) (d : Diagnostic) : Prop :=
  ∀ us : List (Located Token), us.take k = ts.take k → ∃ g, ofTokens limit us = .error g ∧ g.diagnostic us = d

theorem Reader.StopsAt.settled {limit : Nat} {before : List (Located Token)} {s : State} {t : Located Token} {f : Fault}
    (h : StopsAt limit before s t f) (rest : List (Located Token)) :
    Settled limit (before.length + 1) (before ++ t :: rest) (f.diagnostic (before ++ t :: rest)) := by
  intro us hus
  have htake : (before ++ t :: rest).take (before.length + 1) = before ++ [t] := by
    rw [List.append_cons, List.take_left' (by simp)]
  obtain ⟨rest', rfl⟩ : ∃ rest', us = before ++ t :: rest' :=
    ⟨us.drop (before.length + 1), by
      rw [List.append_cons, ← htake, ← hus, List.take_append_drop]⟩
  refine ⟨f, ofTokens_of_step_error h.takes h.stops rest', ?_⟩
  rw [h.stopsWith.2.diagnostic_append rest', h.stopsWith.2.diagnostic_append rest]

/-- Tokens that are no row are the beginning of one, or their diagnostic is settled by the first token that no row has
    at its place: behind the beginning of a row it is the same whatever follows. -/
theorem viable_or_settled {limit : Nat} {ts : List (Located Token)} {f : Fault} (admissible : Admissible ts)
    (deep : ts.length ≤ limit) (h : ofTokens limit ts = .error f) :
    Viable limit ts ∨
      ∃ k, 1 ≤ k ∧ k ≤ ts.length ∧ Viable limit (ts.take (k - 1)) ∧ Settled limit k ts (f.diagnostic ts) := by
  rcases Reader.exists_of_ofTokens_error admissible h with ⟨s, hs, reads, -⟩ | ⟨before, t, rest, s, rfl, stops⟩
  · exact Or.inl (Reader.viable_of_run hs (reads.room.2.imp_right fun room => Nat.lt_of_lt_of_le room deep))
  · rw [List.length_append, List.length_cons] at deep ⊢
    refine Or.inr ⟨before.length + 1, by omega, by omega, ?_, stops.settled rest⟩
    rw [Nat.add_sub_cancel, List.take_left' rfl]
    exact (stops.breaks (by omega)).viable

/-- The tokens of `(1a+-a)`: the symbol behind the minus settles the diagnostic, which marks both. -/
theorem settled_of_sign_without_count :
    let a : Symbol := ⟨'a', by decide +kernel⟩
    let ts : List (Located Token) := [⟨.leftParen, ⟨0, 1⟩⟩, ⟨.integer 1, ⟨1, 2⟩⟩, ⟨.symbol a, ⟨2, 3⟩⟩, ⟨.plus, ⟨3, 4⟩⟩,
      ⟨.minus, ⟨4, 5⟩⟩, ⟨.symbol a, ⟨5, 6⟩⟩, ⟨.rightParen, ⟨6, 7⟩⟩]
    let f : Fault := ⟨.countMissing, 4, 6⟩
    Admissible ts ∧ ts.length ≤ 7 ∧ ofTokens 7 ts = .error f ∧ f.span ts = ⟨4, 6⟩ ∧
      (Viable 7 ts ∨ ∃ k, 1 ≤ k ∧ k ≤ ts.length ∧ Viable 7 (ts.take (k - 1)) ∧ Settled 7 k ts (f.diagnostic ts)) := by
  intro a ts f
  have admissible : Admissible ts := by
    constructor
    · simp [Reader.Spaced, ts]
    · simp [Bounded, Token.InRange, Word.greatestSigned, ts]
  exact ⟨admissible, by decide, rfl, by decide, viable_or_settled admissible (by decide) rfl⟩

end Dotwork.Row
