import Dotwork.Proofs.Acceptance

/-!
# Where a reader stops

Why a reader does not take a token, for every reader and every token: each cause with what it tells about the open
groups, the stand and the token. The fault names no token behind the one that the reader stops at, so the tokens
up to there settle its diagnostic.
-/

namespace Dotwork

/-- The tokens that the count of a cluster can begin with. -/
def Token.BeginsCount (t : Token) : Prop :=
  (∃ n, t = .integer n) ∨ t = .minus

theorem Token.BeginsCount.ne_blank {t : Token} (h : t.BeginsCount) : t ≠ .blank := by
  rcases h with ⟨n, rfl⟩ | rfl <;> nofun

namespace Row

/-! ### The tokens that a fault names -/

namespace Fault

/-- A fault at a token names tokens up to it, at most. -/
structure ShowsAt (position : Nat) (f : Fault) : Prop where
  start : f.start ≤ position
  stop : f.stop = position ∨ f.stop = position + 1

theorem edge?_eq_none_iff {tokens : List (Located Token)} : edge? tokens = none ↔ tokens = [] := by
  cases tokens with
  | nil => simp [edge?]
  | cons t rest =>
    cases h : (t :: rest).find? (!·.value.isBlank) <;> simp [edge?, h]

theorem exists_edge? {tokens : List (Located Token)} (some : tokens ≠ []) : ∃ s, edge? tokens = Option.some s :=
  Option.ne_none_iff_exists'.mp fun h => some (edge?_eq_none_iff.mp h)

variable {f : Fault} {before : List (Located Token)} {t : Located Token}

/-- What stands behind the token at which a fault shows does not matter to its span. -/
theorem ShowsAt.span_append (h : f.ShowsAt before.length) (rest : List (Located Token)) :
    f.span (before ++ t :: rest) = f.span (before ++ [t]) := by
  obtain ⟨start, stop⟩ := h
  have vain : (before ++ t :: rest).take f.stop = (before ++ [t]).take f.stop := by
    rw [List.append_cons]
    exact List.take_append_of_le_length (by rw [List.length_append, List.length_singleton]; omega)
  -- Where nothing was read in vain the fault names the token itself.
  have here : ((before ++ [t]).take f.stop).drop f.start = [] →
      (before ++ t :: rest)[f.stop]? = some t ∧ (before ++ [t])[f.stop]? = some t := fun hnil => by
    have hlength := congrArg List.length hnil
    rw [List.length_drop, List.length_take, List.length_append, List.length_singleton, List.length_nil] at hlength
    have hstop : f.stop = before.length := by omega
    simp [hstop]
  unfold span
  rw [vain]
  generalize ((before ++ [t]).take f.stop).drop f.start = words at here
  cases words with
  | nil =>
    obtain ⟨hrest, hlast⟩ := here rfl
    simp only [edge?_eq_none_iff.mpr rfl, List.reverse_nil, hrest, hlast]
  | cons w words =>
    obtain ⟨first, hfirst⟩ := exists_edge? (List.cons_ne_nil w words)
    obtain ⟨last, hlast⟩ := exists_edge? (List.reverse_ne_nil_iff.mpr (List.cons_ne_nil w words))
    simp only [hfirst, hlast]

theorem ShowsAt.diagnostic_append (h : f.ShowsAt before.length) (rest : List (Located Token)) :
    f.diagnostic (before ++ t :: rest) = f.diagnostic (before ++ [t]) := by
  simp only [diagnostic, h.span_append rest]

end Fault

namespace Reader

/-! ### Causes -/

/-- Why the reader `s` does not take the token `t`. -/
inductive Stops (limit : Nat) (s : State) (t : Token) : Fault.Cause → Prop
  | full (full : limit ≤ s.frames.length) : Stops limit s t .tooDeep
  | touch (c : Cluster) (stand : s.stand = .behind (.cluster c)) (begins : t.BeginsCount) :
    Stops limit s t (.joinMissing c.span)
  | close (rests : s.Rests) (outer : s.frames = []) (paren : t = .rightParen) : Stops limit s t .strayClose
  | symbol (x : Symbol) (rests : s.Rests) (outer : s.frames = []) (token : t = .symbol x)
    (joins : ∀ c blank, s.stand ≠ .behindBlank (.cluster c) blank) : Stops limit s t .trailing
  | blank (last : Term) (blank : Span) (stand : s.stand = .behindBlank last blank) (token : t = .blank) :
    Stops limit s t .trailing
  | unexpected {cause : Fault.Cause} (code : cause.code = .unexpectedToken) : Stops limit s t cause

/-- A reader stops at a token with a fault that says why. -/
def StopsWith (limit position : Nat) (s : State) (t : Token) (f : Fault) : Prop :=
  Stops limit s t f.cause ∧ f.ShowsAt position

/-- The faults with which the reader `s` refuses the token `t`, each with what it tells about the two. -/
inductive Refuses (limit position : Nat) (s : State) (t : Located Token) : Fault → Prop
  | full (paren : t.value = .leftParen) (full : limit ≤ s.frames.length) :
    Refuses limit position s t ⟨.tooDeep, position, position + 1⟩
  | touch (c : Cluster) (stand : s.stand = .behind (.cluster c)) (begins : t.value.BeginsCount) :
    Refuses limit position s t ⟨.joinMissing c.span, position, position⟩
  | close (rests : s.Rests) (outer : s.frames = []) (paren : t.value = .rightParen) :
    Refuses limit position s t ⟨.strayClose, position, position⟩
  | symbol {f : Fault} (x : Symbol) (rests : s.Rests) (token : t.value = .symbol x)
    (joins : ∀ c blank, s.stand ≠ .behindBlank (.cluster c) blank) (refused : stray position s = .error f) :
    Refuses limit position s t f
  | space (c : Cluster) (blank : Span) (x : Symbol) (stand : s.stand = .behindBlank (.cluster c) blank)
    (token : t.value = .symbol x) : Refuses limit position s t ⟨.termMissing, position, position⟩
  | plus (last : Term) (join : Span) (stand : s.stand = .behindPlus last join ∨ s.stand = .behindPlusBlank last join)
    (noBlank : s.stand = .behindPlus last join → t.value ≠ .blank) (noTerm : t.value.startsTerm = false) :
    Refuses limit position s t ⟨.termMissing, position, position⟩
  | cluster {cause : Fault.Cause} (l : Lead) (x : Symbol) (stand : s.stand = .lead l) (token : t.value = .symbol x)
    (noCount : l.clusterCount = .error cause) : Refuses limit position s t ⟨cause, l.position, position + 1⟩
  | group {cause : Fault.Cause} (l : Lead) (stand : s.stand = .lead l) (paren : t.value = .leftParen)
    (noMagnitude : l.magnitude = .error cause) : Refuses limit position s t ⟨cause, l.position, position⟩
  | cutOff (l : Lead) (stand : s.stand = .lead l) (noSymbol : ∀ x, t.value ≠ .symbol x)
    (noParen : t.value ≠ .leftParen) : Refuses limit position s t (l.cutOff position)
  | huge (n : Nat) (token : t.value = .integer n) (beyond : Word.greatestSigned < n) :
    Refuses limit position s t ⟨.signAlone, position, position⟩
  | repeated {f : Fault} (last : Term) (blank : Span) (stand : s.stand = .behindBlank last blank)
    (token : t.value = .blank) (refused : stray position s = .error f ∨ f = ⟨.termMissing, position, position⟩) :
    Refuses limit position s t f

section Step
variable {limit position : Nat} {s u : State} {t : Located Token} {f : Fault}

theorem openGroup_refuses {paren first : Span} {sign : Option (Located Sign)} {magnitude : Option (Located Int)}
    (ht : t.value = .leftParen) (hu : u.frames = s.frames)
    (h : openGroup limit position paren first sign magnitude u = .error f) : Refuses limit position s t f := by
  unfold openGroup at h
  split at h
  · cases h
  · next hroom =>
    cases h
    exact .full ht (hu ▸ Nat.le_of_not_lt hroom)

theorem beginTerm_refuses (hu : u.frames = s.frames) (ht : t.value.startsTerm = true)
    (h : beginTerm limit position t u = .error f) : Refuses limit position s t f := by
  obtain ⟨v, p⟩ := t
  cases v with
  | integer n =>
    simp only [beginTerm] at h
    split at h
    · cases h
    · next hn =>
      cases h
      exact .huge n rfl (Nat.lt_of_not_le hn)
  | plus | minus => cases h
  | leftParen => exact openGroup_refuses rfl hu h
  | symbol | rightParen | blank => cases ht

theorem beginTerm_tie_refuses {last : Term} {join : Option (Located Join)} (ht : t.value.startsTerm = true)
    (h : beginTerm limit position t (tie last join s) = .error f) : Refuses limit position s t f :=
  beginTerm_refuses (u := tie last join s) rfl ht h

theorem closeGroup_refuses {paren : Span} (rests : s.Rests) (ht : t.value = .rightParen)
    (h : closeGroup position paren s = .error f) : Refuses limit position s t f := by
  unfold closeGroup at h
  split at h
  · next outer =>
    cases h
    exact .close rests outer ht
  · cases h

theorem stepLead_refuses {l : Lead} (hs : s.stand = .lead l) (h : stepLead limit position l t s = .error f) :
    Refuses limit position s t f := by
  obtain ⟨v, p⟩ := t
  cases v with
  | minus | integer =>
    simp only [stepLead] at h
    split at h
    · cases h
    · cases h
      exact .cutOff l hs (by simp) (by simp)
  | symbol x =>
    simp only [stepLead] at h
    split at h
    · cases h
    · next cause hc =>
      cases h
      exact .cluster l x hs rfl hc
  | leftParen =>
    simp only [stepLead] at h
    split at h
    · exact openGroup_refuses rfl rfl h
    · next cause hc =>
      cases h
      exact .group l hs rfl hc
  | plus | rightParen | blank =>
    cases h
    exact .cutOff l hs (by simp) (by simp)

theorem stepBehind_refuses {last : Term} (hs : s.stand = .behind last)
    (h : stepBehind limit position last t s = .error f) : Refuses limit position s t f := by
  have rests : s.Rests := Or.inr (Or.inl ⟨last, hs⟩)
  -- A count behind a cluster lacks a join.
  have touch : t.value.BeginsCount → ¬last.isGroup = true →
      Refuses limit position s t ⟨.joinMissing last.span, position, position⟩ := fun hv hlast => by
    cases last with
    | cluster c => exact .touch c hs hv
    | group => exact absurd rfl hlast
  obtain ⟨v, p⟩ := t
  cases v with
  | blank | plus => cases h
  | rightParen => exact closeGroup_refuses rests rfl h
  | leftParen => exact beginTerm_tie_refuses rfl h
  | integer n =>
    simp only [stepBehind] at h
    split at h
    · exact beginTerm_tie_refuses rfl h
    · next hlast =>
      cases h
      exact touch (Or.inl ⟨n, rfl⟩) hlast
  | minus =>
    simp only [stepBehind] at h
    split at h
    · exact beginTerm_tie_refuses rfl h
    · next hlast =>
      cases h
      exact touch (Or.inr rfl) hlast
  | symbol x => exact .symbol x rests rfl (by simp [hs]) h

theorem stepBehindBlank_refuses {last : Term} {blank : Span} (hs : s.stand = .behindBlank last blank)
    (h : stepBehindBlank limit position last blank t s = .error f) : Refuses limit position s t f := by
  have rests : s.Rests := Or.inr (Or.inr ⟨last, blank, hs⟩)
  obtain ⟨v, p⟩ := t
  cases v with
  | plus => cases h
  | rightParen => exact closeGroup_refuses rests rfl h
  | leftParen | integer | minus => exact beginTerm_tie_refuses rfl h
  | symbol x =>
    cases last with
    | cluster c =>
      cases h
      exact .space c blank x hs rfl
    | group => exact .symbol x rests rfl (by simp [hs]) h
  | blank =>
    simp only [stepBehindBlank] at h
    split at h
    · exact .repeated last blank hs rfl (Or.inl h)
    · cases h
      exact .repeated last blank hs rfl (Or.inr rfl)

theorem stepBehindJoin_refuses {last : Term} {join : Span}
    (hs : s.stand = .behindPlus last join ∨ s.stand = .behindPlusBlank last join)
    (noBlank : s.stand = .behindPlus last join → t.value ≠ .blank)
    (h : stepBehindJoin limit position last join t s = .error f) : Refuses limit position s t f := by
  unfold stepBehindJoin at h
  split at h
  · next ht => exact beginTerm_tie_refuses ht h
  · next ht =>
    cases h
    exact .plus last join hs noBlank (Bool.eq_false_iff.mpr ht)

/-- A refusal says all that there is to say about the reader and the token. -/
theorem step_refuses (h : step limit position s t = .error f) : Refuses limit position s t f := by
  unfold step at h
  split at h
  · next hs =>
    have rests : s.Rests := Or.inl hs
    obtain ⟨v, p⟩ := t
    cases v with
    | blank => cases h
    | rightParen => exact closeGroup_refuses rests rfl h
    | integer | plus | minus | leftParen => exact beginTerm_refuses (s := s) rfl rfl h
    | symbol x => exact .symbol x rests rfl (by simp [hs]) h
  · next l hs => exact stepLead_refuses hs h
  · next last hs => exact stepBehind_refuses hs h
  · next last blank hs => exact stepBehindBlank_refuses hs h
  · next last join hs =>
    split at h
    · cases h
    · next hblank =>
      refine stepBehindJoin_refuses (Or.inl hs) (fun _ ht => hblank ?_) h
      rw [ht]
      rfl
  · next last join hs => exact stepBehindJoin_refuses (Or.inr hs) (by simp [hs]) h

theorem code_cutOff (l : Lead) : (l.cutOff position).cause.code = .unexpectedToken := by
  unfold Lead.cutOff
  split <;> rfl

theorem code_of_clusterCount {l : Lead} {cause : Fault.Cause} (h : l.clusterCount = .error cause) :
    cause.code = .unexpectedToken := by
  unfold Lead.clusterCount at h
  repeat' split at h
  all_goals cases h
  all_goals rfl

theorem code_of_magnitude {l : Lead} {cause : Fault.Cause} (h : l.magnitude = .error cause) :
    cause.code = .unexpectedToken := by
  unfold Lead.magnitude at h
  split at h
  all_goals cases h
  rfl

theorem stopsWith_here {t : Token} {cause : Fault.Cause} (h : Stops limit s t cause) :
    StopsWith limit position s t ⟨cause, position, position⟩ :=
  ⟨h, Nat.le_refl position, Or.inl rfl⟩

theorem stray_stops {t : Token} (trails : s.frames = [] → Stops limit s t .trailing)
    (h : stray position s = .error f) : StopsWith limit position s t f := by
  unfold stray at h
  split at h
  · next outer =>
    cases h
    exact stopsWith_here (trails outer)
  · cases h
    exact stopsWith_here (.unexpected rfl)

theorem Refuses.stopsWith (lead : ∀ l, s.stand = .lead l → l.position ≤ position)
    (h : Refuses limit position s t f) : StopsWith limit position s t.value f := by
  cases h with
  | full _ full => exact ⟨.full full, Nat.le_refl position, Or.inr rfl⟩
  | touch c stand begins => exact stopsWith_here (.touch c stand begins)
  | close rests outer paren => exact stopsWith_here (.close rests outer paren)
  | symbol x rests token joins refused =>
    exact stray_stops (fun outer => .symbol x rests outer token joins) refused
  | space | plus | huge => exact stopsWith_here (.unexpected rfl)
  | cluster l x stand token noCount =>
    exact ⟨.unexpected (code_of_clusterCount noCount), lead l stand, Or.inr rfl⟩
  | group l stand paren noMagnitude =>
    exact ⟨.unexpected (code_of_magnitude noMagnitude), lead l stand, Or.inl rfl⟩
  | cutOff l stand => exact ⟨.unexpected (code_cutOff l), lead l stand, Or.inl rfl⟩
  | repeated last blank stand token refused =>
    rcases refused with refused | rfl
    · exact stray_stops (fun _ => .blank last blank stand token) refused
    · exact stopsWith_here (.unexpected rfl)

/-- Where a reader stops, its fault has one of the causes and names no token behind. -/
theorem step_stops (lead : ∀ l, s.stand = .lead l → l.position ≤ position)
    (h : step limit position s t = .error f) : StopsWith limit position s t.value f :=
  (step_refuses h).stopsWith lead

end Step

/-! ### Tokens that stop a reader -/

section Forward
variable (limit position : Nat) {s : State}

theorem step_strayClose (rests : s.Rests) (outer : s.frames = []) (paren : Span) :
    step limit position s ⟨.rightParen, paren⟩ = .error ⟨.strayClose, position, position⟩ := by
  rw [step_close limit position rests, closeGroup, outer]

theorem step_joinMissing {c : Cluster} (stand : s.stand = .behind (.cluster c)) {t : Located Token}
    (ht : t.value.BeginsCount) : step limit position s t = .error ⟨.joinMissing c.span, position, position⟩ := by
  obtain ⟨v, p⟩ := t
  rcases ht with ⟨n, rfl⟩ | rfl <;> simp [step, stand, stepBehind, Term.isGroup, Term.span]

theorem step_trailing (rests : s.Rests) (outer : s.frames = [])
    (joins : ∀ c blank, s.stand ≠ .behindBlank (.cluster c) blank) (x : Symbol) (p : Span) :
    step limit position s ⟨.symbol x, p⟩ = .error ⟨.trailing, position, position⟩ := by
  rcases rests with hs | ⟨last, hs⟩ | ⟨last, blank, hs⟩
  · simp [step, hs, beginTerm, stray, outer]
  · simp [step, hs, stepBehind, stray, outer]
  · cases last with
    | cluster c => exact absurd hs (joins c blank)
    | group => simp [step, hs, stepBehindBlank, Term.isGroup, stray, outer]

end Forward

end Reader

end Row

end Dotwork
