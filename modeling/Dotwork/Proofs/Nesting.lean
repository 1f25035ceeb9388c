import Dotwork.Proofs.Reading

/-!
# Nesting

What one token does to the open groups and to the terms of the innermost one, for every reader and every token.
It follows that no row is read whose groups nest deeper than the limit, whatever the tokens.
-/

namespace Dotwork

namespace Row.Reader

/-! ### What a token does -/

/-- The terms of the innermost group, last one first. -/
def State.terms (s : State) : List Term :=
  s.entries.map (·.term)

/-- What a token does to the open groups and to the terms of the innermost one. -/
inductive Effect (limit : Nat) (s s' : State) : Prop
  | stay (frames : s'.frames = s.frames) (terms : s'.terms = s.terms)
  | cluster (l : Lead) (c : Cluster) (stand : s.stand = .lead l) (count : l.clusterCount = .ok c.count)
    (frames : s'.frames = s.frames) (terms : s'.terms = .cluster c :: s.terms)
  | opens (f : Frame) (room : s.frames.length < limit) (frames : s'.frames = f :: s.frames)
    (before : f.before.map (·.term) = s.terms) (terms : s'.terms = [])
  | closes (f : Frame) (h : Head) (sign : h.sign = f.sign) (magnitude : h.magnitude = f.magnitude)
    (frames : s.frames = f :: s'.frames) (terms : s'.terms = .group h s.row :: f.before.map (·.term))

section Effect
variable {limit position : Nat} {s s' : State}

theorem openGroup_effect {paren first : Span} {sign : Option (Located Sign)} {magnitude : Option (Located Int)}
    {u : State} (hf : u.frames = s.frames) (hd : u.done.map (·.term) = s.terms)
    (h : openGroup limit position paren first sign magnitude u = .ok s') : Effect limit s s' := by
  unfold openGroup at h
  split at h
  · next hroom =>
    cases h
    exact .opens _ (hf ▸ hroom) (by rw [hf]) hd rfl
  · cases h

theorem beginTerm_effect {t : Located Token} {u : State} (hf : u.frames = s.frames)
    (hd : u.done.map (·.term) = s.terms) (h : beginTerm limit position t u = .ok s') : Effect limit s s' := by
  unfold beginTerm at h
  split at h
  · split at h
    · cases h
      exact .stay hf hd
    · cases h
  · cases h
    exact .stay hf hd
  · cases h
    exact .stay hf hd
  · exact openGroup_effect hf hd h
  all_goals
    unfold stray at h
    split at h <;> cases h

theorem beginTerm_tie_effect {last : Term} {join : Option (Located Join)} {t : Located Token}
    (hd : s.terms = last :: s.done.map (·.term)) (h : beginTerm limit position t (tie last join s) = .ok s') :
    Effect limit s s' :=
  beginTerm_effect (u := tie last join s) rfl hd.symm h

theorem closeGroup_effect {paren : Span} (h : closeGroup position paren s = .ok s') : Effect limit s s' := by
  unfold closeGroup at h
  split at h
  · cases h
  · next f frames hf =>
    cases h
    exact .closes f _ rfl rfl hf rfl

theorem stepLead_effect {l : Lead} {t : Located Token} (hl : s.stand = .lead l)
    (h : stepLead limit position l t s = .ok s') : Effect limit s s' := by
  have hd : s.terms = s.done.map (·.term) := by simp [State.terms, State.entries, hl]
  unfold stepLead at h
  split at h
  · split at h
    · cases h
      exact .stay rfl hd.symm
    · cases h
  · split at h
    · cases h
      exact .stay rfl hd.symm
    · cases h
  · split at h
    · next count hc =>
      cases h
      exact .cluster l ⟨count, _, _⟩ hl hc rfl (congrArg _ hd.symm)
    · cases h
  · split at h
    · exact openGroup_effect rfl hd.symm h
    · cases h
  all_goals cases h

theorem step_effect {t : Located Token} (h : step limit position s t = .ok s') : Effect limit s s' := by
  obtain ⟨fs, done, stand⟩ := s
  unfold step at h
  cases stand with
  | fresh =>
    dsimp only at h
    split at h
    · cases h
      exact .stay rfl rfl
    · exact closeGroup_effect h
    all_goals exact beginTerm_effect rfl rfl h
  | lead l => exact stepLead_effect rfl h
  | behind last =>
    dsimp only [stepBehind] at h
    split at h
    · cases h
      exact .stay rfl rfl
    · cases h
      exact .stay rfl rfl
    · exact closeGroup_effect h
    · exact beginTerm_tie_effect rfl h
    · split at h
      · exact beginTerm_tie_effect rfl h
      · cases h
    · split at h
      · exact beginTerm_tie_effect rfl h
      · cases h
    · unfold stray at h
      split at h <;> cases h
  | behindBlank last blank =>
    dsimp only [stepBehindBlank] at h
    split at h
    · cases h
      exact .stay rfl rfl
    · exact closeGroup_effect h
    · exact beginTerm_tie_effect rfl h
    · exact beginTerm_tie_effect rfl h
    · exact beginTerm_tie_effect rfl h
    all_goals
      unfold stray at h
      split at h
      · split at h <;> cases h
      · cases h
  | behindPlus last join =>
    dsimp only [stepBehindJoin] at h
    split at h
    · cases h
      exact .stay rfl rfl
    · split at h
      · exact beginTerm_tie_effect rfl h
      · cases h
  | behindPlusBlank last join =>
    dsimp only [stepBehindJoin] at h
    split at h
    · exact beginTerm_tie_effect rfl h
    · cases h

end Effect

/-! ### Nesting -/

/-- Terms inside `depth` groups nest no deeper than the limit. -/
def Fit (limit depth : Nat) (terms : List Term) : Prop :=
  ∀ t ∈ terms, depth + t.nesting ≤ limit

/-- So do the terms in front of the open groups, which are no more than the limit. -/
def FramesFit (limit : Nat) : List Frame → Prop
  | [] => True
  | f :: frames => frames.length < limit ∧ Fit limit frames.length (f.before.map (·.term)) ∧ FramesFit limit frames

/-- What a reader holds nests no deeper than the limit. -/
structure Shallow (limit : Nat) (s : State) : Prop where
  frames : FramesFit limit s.frames
  terms : Fit limit s.frames.length s.terms

theorem nesting_row_le {s : State} {n : Nat} : s.row.nesting ≤ n ↔ ∀ t ∈ s.terms, t.nesting ≤ n := by
  rw [State.row, nesting_ofList_le]
  simp [State.terms]

theorem Shallow.step {limit position : Nat} {s s' : State} {t : Located Token} (h : Shallow limit s)
    (hs : step limit position s t = .ok s') : Shallow limit s' := by
  obtain ⟨hframes, hterms⟩ := h
  cases step_effect hs with
  | stay frames terms => exact ⟨frames ▸ hframes, by rw [frames, terms]; exact hterms⟩
  | cluster l c stand count frames terms =>
    refine ⟨frames ▸ hframes, ?_⟩
    rw [frames, terms]
    -- A cluster nests no groups, and every reader has room for the groups that are open.
    have room : s.frames.length ≤ limit := by
      cases hfs : s.frames with
      | nil => exact Nat.zero_le _
      | cons f frames =>
        rw [hfs] at hframes
        exact hframes.1
    intro t ht
    rcases List.mem_cons.mp ht with rfl | ht
    · exact room
    · exact hterms t ht
  | opens f room frames before terms =>
    refine ⟨?_, ?_⟩
    · rw [frames]
      exact ⟨room, before ▸ hterms, hframes⟩
    · rw [terms]
      intro t ht
      cases ht
  | closes f h sign magnitude frames terms =>
    rw [frames] at hframes hterms
    obtain ⟨room, hbefore, hrest⟩ := hframes
    refine ⟨hrest, ?_⟩
    rw [terms]
    intro t ht
    rcases List.mem_cons.mp ht with rfl | ht
    · have body : s.row.nesting ≤ limit - (s'.frames.length + 1) := nesting_row_le.mpr fun u hu => by
        have := hterms u hu
        rw [List.length_cons] at this
        omega
      show s'.frames.length + (s.row.nesting + 1) ≤ limit
      omega
    · exact hbefore t ht

theorem shallow_of_run {limit : Nat} {ts : List (Located Token)} {s : State}
    (h : run limit 0 Reader.start ts = .ok s) : Shallow limit s := by
  refine run_induction (P := fun _ s => Shallow limit s) ⟨trivial, ?_⟩ (fun ws t rest s s' _ hk hs => hk.step hs) h
  intro t ht
  cases ht

end Row.Reader

/-- Whatever the tokens, a row that is read nests no deeper than the limit. -/
theorem Row.nesting_le_of_ofTokens {limit : Nat} {ts : List (Located Token)} {row : Row}
    (h : ofTokens limit ts = .ok row) : row.nesting ≤ limit := by
  unfold ofTokens at h
  split at h
  · next s hs =>
    obtain ⟨hframes, -, rfl⟩ := Reader.finish_ok h
    refine Reader.nesting_row_le.mpr fun t ht => ?_
    have := (Reader.shallow_of_run hs).terms t ht
    rwa [hframes, List.length_nil, Nat.zero_add] at this
  · cases h

end Dotwork
