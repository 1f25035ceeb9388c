import Dotwork.Proofs.Conservation
import Dotwork.Proofs.Depiction
import Dotwork.Proofs.Viability

/-!
# Limits of nesting

What a lower limit changes. Two readers with different limits take the same tokens to the same effect until an
opening parenthesis finds as many groups open as the lower limit allows; there, and for no other reason, they part.
So the rows read under the lower limit are those read under the higher one that nest no deeper.
-/

namespace Dotwork

def Tokens.number (v : Token) (ts : List (Located Token)) : Nat :=
  ts.countP fun t => t.value = v

namespace Row.Reader
variable {limit limit' position : Nat} {s s' : State} {t : Located Token}

/-! ### The part of the limit -/

/-- How a reader responds to a token under every limit: only where the token opens a group does the limit count. -/
inductive Response (position : Nat) (s : State) (t : Located Token) : Prop
  | opens (first : Span) (sign : Option (Located Sign)) (magnitude : Option (Located Int)) (u : State)
    (paren : t.value = .leftParen) (frames : u.frames = s.frames)
    (eq : ∀ limit, step limit position s t = openGroup limit position t.span first sign magnitude u)
  | closes (paren : t.value = .rightParen) (eq : ∀ limit, step limit position s t = closeGroup position t.span s)
  | moves (s' : State) (eq : ∀ limit, step limit position s t = .ok s') (frames : s'.frames = s.frames)
    (flat : t.value.bracket? = none)
  | refuses (f : Fault) (eq : ∀ limit, step limit position s t = .error f)

theorem response_of_stray {u : State} (h : ∀ limit, step limit position s t = stray position u) :
    Response position s t := by
  unfold stray at h
  split at h <;> exact .refuses _ h

theorem response_of_beginTerm {u : State} (hu : u.frames = s.frames)
    (h : ∀ limit, step limit position s t = beginTerm limit position t u) : Response position s t := by
  obtain ⟨v, p⟩ := t
  cases v with
  | integer n =>
    simp only [beginTerm] at h
    split at h
    · exact .moves _ h hu rfl
    · exact .refuses _ h
  | plus | minus => exact .moves _ h hu rfl
  | leftParen => exact .opens p none none u rfl hu h
  | symbol | rightParen | blank => exact response_of_stray h

theorem response_lead {l : Lead} (hs : s.stand = .lead l) : Response position s t := by
  have h : ∀ limit, step limit position s t = stepLead limit position l t s := fun limit => by rw [step, hs]
  obtain ⟨v, p⟩ := t
  cases v with
  | minus | integer =>
    simp only [stepLead] at h
    split at h
    · exact .moves _ h rfl rfl
    · exact .refuses _ h
  | symbol x =>
    simp only [stepLead] at h
    split at h
    · exact .moves _ h rfl rfl
    · exact .refuses _ h
  | leftParen =>
    simp only [stepLead] at h
    split at h
    · exact .opens _ _ _ s rfl rfl h
    · exact .refuses _ h
  | plus | rightParen | blank => exact .refuses _ h

theorem response_behind {last : Term} (hs : s.stand = .behind last) : Response position s t := by
  have h : ∀ limit, step limit position s t = stepBehind limit position last t s := fun limit => by rw [step, hs]
  obtain ⟨v, p⟩ := t
  cases v with
  | blank | plus => exact .moves _ h rfl rfl
  | rightParen => exact .closes rfl h
  | leftParen => exact response_of_beginTerm (u := tie last none s) rfl h
  | integer | minus =>
    simp only [stepBehind] at h
    split at h
    · exact response_of_beginTerm (u := tie last none s) rfl h
    · exact .refuses _ h
  | symbol => exact response_of_stray h

theorem response_behindBlank {last : Term} {blank : Span} (hs : s.stand = .behindBlank last blank) :
    Response position s t := by
  have h : ∀ limit, step limit position s t = stepBehindBlank limit position last blank t s := fun limit => by
    rw [step, hs]
  obtain ⟨v, p⟩ := t
  cases v with
  | plus => exact .moves _ h rfl rfl
  | rightParen => exact .closes rfl h
  | leftParen | integer | minus => exact response_of_beginTerm (u := tie last _ s) rfl h
  | symbol | blank =>
    simp only [stepBehindBlank] at h
    split at h
    · exact response_of_stray h
    · exact .refuses _ h

theorem response_of_join {last : Term} {join : Span}
    (h : ∀ limit, step limit position s t = stepBehindJoin limit position last join t s) : Response position s t := by
  unfold stepBehindJoin at h
  split at h
  · exact response_of_beginTerm (u := tie last _ s) rfl h
  · exact .refuses _ h

theorem response (position : Nat) (s : State) (t : Located Token) : Response position s t := by
  cases hs : s.stand with
  | fresh =>
    obtain ⟨v, p⟩ := t
    cases v with
    | blank => exact .moves s (fun limit => by simp only [step, hs]) rfl rfl
    | rightParen => exact .closes rfl fun limit => by simp only [step, hs]
    | integer | plus | minus | leftParen | symbol =>
      exact response_of_beginTerm rfl fun limit => by simp only [step, hs]
  | lead l => exact response_lead hs
  | behind last => exact response_behind hs
  | behindBlank last blank => exact response_behindBlank hs
  | behindPlus last join =>
    have h : ∀ limit, step limit position s t =
        if t.value.isBlank then .ok { s with stand := .behindPlusBlank last (join.union t.span) }
        else stepBehindJoin limit position last join t s := fun limit => by rw [step, hs]
    split at h
    · next hblank =>
      obtain ⟨v, p⟩ := t
      cases v with
      | blank => exact .moves _ h rfl rfl
      | integer | plus | minus | leftParen | rightParen | symbol => cases hblank
    · exact response_of_join h
  | behindPlusBlank last join => exact response_of_join fun limit => by rw [step, hs]

/-- A token has the same effect under a higher limit, unless it opens a group where no more may be open. -/
theorem step_eq_or_full (hle : limit ≤ limit') (position : Nat) (s : State) (t : Located Token) :
    step limit position s t = step limit' position s t ∨
      t.value = .leftParen ∧ limit ≤ s.frames.length ∧
        step limit position s t = .error ⟨.tooDeep, position, position + 1⟩ := by
  cases response position s t with
  | opens first sign magnitude u paren frames eq =>
    rw [eq, eq, openGroup, openGroup, frames]
    rcases Nat.lt_or_ge s.frames.length limit with room | full
    · left
      rw [if_pos room, if_pos (Nat.lt_of_lt_of_le room hle)]
    · exact Or.inr ⟨paren, full, if_neg (Nat.not_lt_of_ge full)⟩
  | closes _ eq | moves _ eq | refuses _ eq => exact Or.inl ((eq limit).trans (eq limit').symm)

/-- A parenthesis that is taken opens a group or closes one, and no other token does. -/
theorem step_frames (h : step limit position s t = .ok s') :
    t.value = .leftParen ∧ s.frames.length < limit ∧ s'.frames.length = s.frames.length + 1 ∨
      t.value = .rightParen ∧ s.frames.length = s'.frames.length + 1 ∨
      t.value.bracket? = none ∧ s'.frames.length = s.frames.length := by
  cases response position s t with
  | opens first sign magnitude u paren frames eq =>
    rw [eq, openGroup] at h
    split at h
    · next room =>
      cases h
      exact Or.inl ⟨paren, frames ▸ room, congrArg (·.length + 1) frames⟩
    · cases h
  | closes paren eq =>
    rw [eq, closeGroup] at h
    split at h
    · cases h
    · next hframes =>
      cases h
      exact Or.inr (Or.inl ⟨paren, congrArg List.length hframes⟩)
  | moves u eq frames flat =>
    rw [eq] at h
    cases h
    exact Or.inr (Or.inr ⟨flat, congrArg List.length frames⟩)
  | refuses f eq =>
    rw [eq] at h
    cases h

/-! ### Runs under two limits -/

/-- The open groups of a reader are the parentheses that were opened and not closed. -/
theorem number_leftParen_of_run {ts : List (Located Token)} (h : run limit 0 Reader.start ts = .ok s) :
    Tokens.number .leftParen ts = Tokens.number .rightParen ts + s.frames.length := by
  refine run_induction (P := fun ws s => Tokens.number .leftParen ws = Tokens.number .rightParen ws + s.frames.length)
    rfl (fun ws t rest s s' _ hws hs => ?_) h
  simp only [Tokens.number, List.countP_append, List.countP_singleton] at hws ⊢
  rcases step_frames hs with ⟨ht, -, hframes⟩ | ⟨ht, hframes⟩ | ⟨flat, hframes⟩
  · simp [ht]
    omega
  · simp [ht]
    omega
  · have hopen : t.value ≠ .leftParen := fun hv => by simp [hv, Token.bracket?] at flat
    have hclose : t.value ≠ .rightParen := fun hv => by simp [hv, Token.bracket?] at flat
    simp [hopen, hclose]
    omega

/-- Two readers with different limits part only where a parenthesis opens a group too many for the lower one. -/
theorem run_eq_or_full (hle : limit ≤ limit') (position : Nat) (s : State) (ts : List (Located Token)) :
    run limit position s ts = run limit' position s ts ∨
      ∃ before p rest u, ts = before ++ p :: rest ∧ run limit position s before = .ok u ∧
        run limit' position s before = .ok u ∧ p.value = .leftParen ∧ limit ≤ u.frames.length ∧
        step limit (position + before.length) u p =
          .error ⟨.tooDeep, position + before.length, position + before.length + 1⟩ := by
  induction ts generalizing position s with
  | nil => exact Or.inl rfl
  | cons t ts ih =>
    rcases step_eq_or_full hle position s t with same | ⟨paren, full, refused⟩
    · cases hstep : step limit' position s t with
      | error f => exact Or.inl (by simp only [run, same, hstep])
      | ok v =>
        rw [hstep] at same
        rcases ih (position + 1) v with hrun | ⟨before, p, rest, u, rfl, hu, hu', hp, full, refused⟩
        · exact Or.inl (by rw [run_cons same, run_cons hstep, hrun])
        · refine Or.inr ⟨t :: before, p, rest, u, rfl, by rw [run_cons same, hu], by rw [run_cons hstep, hu'], hp,
            full, ?_⟩
          rwa [List.length_cons, Nat.add_comm before.length 1, ← Nat.add_assoc]
    · exact Or.inr ⟨[], t, ts, s, rfl, rfl, rfl, paren, full, refused⟩

/-- A reader that holds nothing too deep has held nothing too deep before. -/
theorem Shallow.of_step {depth : Nat} (h : Shallow depth s') (hs : Reader.step limit position s t = .ok s') :
    Shallow depth s := by
  obtain ⟨hframes, hterms⟩ := h
  cases step_effect hs with
  | stay frames terms =>
    rw [frames] at hframes hterms
    exact ⟨hframes, terms ▸ hterms⟩
  | cluster l c stand count frames terms =>
    rw [frames] at hframes hterms
    rw [terms] at hterms
    exact ⟨hframes, fun t ht => hterms t (List.mem_cons_of_mem _ ht)⟩
  | opens f room frames before terms =>
    rw [frames] at hframes
    exact ⟨hframes.2.2, before ▸ hframes.2.1⟩
  | closes f h sign magnitude frames terms =>
    rw [terms] at hterms
    have body : s'.frames.length + (s.row.nesting + 1) ≤ depth := hterms _ List.mem_cons_self
    refine ⟨?_, fun t ht => ?_⟩
    · rw [frames]
      exact ⟨by omega, fun t ht => hterms t (List.mem_cons_of_mem _ ht), hframes⟩
    · have := nesting_row_le.mp (Nat.le_refl s.row.nesting) t ht
      rw [frames, List.length_cons]
      omega

theorem Shallow.of_run {depth : Nat} {ts : List (Located Token)} (h : Shallow depth s')
    (hs : run limit position s ts = .ok s') : Shallow depth s := by
  induction ts generalizing position s with
  | nil =>
    cases hs
    exact h
  | cons t ts ih =>
    simp only [run] at hs
    split at hs
    · next u hu => exact (ih hs).of_step hu
    · cases hs

theorem FramesFit.length_le {frames : List Frame} (h : FramesFit limit frames) : frames.length ≤ limit := by
  cases frames with
  | nil => exact Nat.zero_le limit
  | cons f frames => exact h.1

end Row.Reader

/-! ### The parenthesis at which a limit shows -/

/-- The first opening parenthesis in front of which `limit` more are opened than closed. -/
structure Row.FirstBeyond (limit : Nat) (ts before : List (Located Token)) (p : Located Token) : Prop where
  here : ∃ rest, ts = before ++ p :: rest
  paren : p.value = .leftParen
  full : Tokens.number .leftParen before = Tokens.number .rightParen before + limit
  first : ∀ front q back, before = front ++ q :: back → q.value = .leftParen →
    Tokens.number .leftParen front ≠ Tokens.number .rightParen front + limit

namespace Row

theorem Reader.firstBeyond_of_run {limit : Nat} {s : State} {before : List (Located Token)} {p : Located Token}
    (hrun : run limit 0 Reader.start before = .ok s) (paren : p.value = .leftParen) (full : limit ≤ s.frames.length)
    (rest : List (Located Token)) : FirstBeyond limit (before ++ p :: rest) before p where
  here := ⟨rest, rfl⟩
  paren := paren
  full := by
    rw [number_leftParen_of_run hrun, Nat.le_antisymm (shallow_of_run hrun).frames.length_le full]
  first := by
    rintro front q back rfl hq hfront
    obtain ⟨u, hu, hback⟩ := exists_of_run_append hrun
    simp only [run] at hback
    split at hback
    · next v hv =>
      -- The parenthesis `q` was taken, so there was room for its group.
      rcases step_frames hv with ⟨-, room, -⟩ | ⟨hclose, -⟩ | ⟨flat, -⟩
      · rw [number_leftParen_of_run hu] at hfront
        omega
      · rw [hq] at hclose
        cases hclose
      · rw [hq] at flat
        cases flat
    · cases hback

theorem Fault.span_token (cause : Cause) (before rest : List (Located Token)) (t : Located Token) :
    (Fault.mk cause before.length (before.length + 1)).span (before ++ t :: rest) = t.span := by
  have vain : ((before ++ t :: rest).take (before.length + 1)).drop before.length = [t] := by
    rw [List.append_cons, List.take_left' (by simp), List.drop_left]
  have edge : edge? [t] = some t.span := by
    cases h : t.value.isBlank <;> simp [edge?, h]
  simp only [span, vain, List.reverse_singleton, edge, Span.union_self]

/-- What a lower limit changes for some tokens: nothing, or it refuses them at the first parenthesis beyond it; and it
    accepts the rows that nest no deeper. -/
structure Limited (limit limit' : Nat) (ts : List (Located Token)) : Prop where
  same : ofTokens limit ts = ofTokens limit' ts ∨
    ∃ f before p, ofTokens limit ts = .error f ∧ FirstBeyond limit ts before p ∧
      (f.diagnostic ts).code = some .nestingTooDeep ∧
      (f.diagnostic ts).labels = [⟨p.span, Diagnostic.Code.description .nestingTooDeep, true⟩]
  accepted : ∀ row, ofTokens limit ts = .ok row ↔ ofTokens limit' ts = .ok row ∧ row.nesting ≤ limit

section Limited
variable {limit limit' : Nat} (hle : limit ≤ limit') (ts : List (Located Token))
include hle

theorem ofTokens_eq_or_full :
    ofTokens limit ts = ofTokens limit' ts ∨
      ∃ before p rest s, ts = before ++ p :: rest ∧ Reader.run limit 0 Reader.start before = .ok s ∧
        Reader.run limit' 0 Reader.start before = .ok s ∧ p.value = .leftParen ∧ limit ≤ s.frames.length ∧
        ofTokens limit ts = .error ⟨.tooDeep, before.length, before.length + 1⟩ := by
  rcases Reader.run_eq_or_full hle 0 Reader.start ts with same | ⟨before, p, rest, s, rfl, hs, hs', paren, full, refused⟩
  · exact Or.inl (by rw [ofTokens, ofTokens, same])
  · rw [Nat.zero_add] at refused
    exact Or.inr ⟨before, p, rest, s, rfl, hs, hs', paren, full, Reader.ofTokens_of_step_error hs refused rest⟩

theorem ofTokens_of_nesting_le {row : Row} (h : ofTokens limit' ts = .ok row) (shallow : row.nesting ≤ limit) :
    ofTokens limit ts = .ok row := by
  rcases ofTokens_eq_or_full hle ts with same | ⟨before, p, rest, s, rfl, -, hs', paren, full, -⟩
  · rw [same, h]
  · unfold ofTokens at h
    split at h
    · next v hv =>
      obtain ⟨hframes, -, rfl⟩ := Reader.finish_ok h
      -- The reader that ends with the row has held one group more than the lower limit allows.
      have last : Reader.Shallow limit v := by
        refine ⟨by rw [hframes]; trivial, fun t ht => ?_⟩
        have := Reader.nesting_row_le.mp shallow t ht
        rwa [hframes, List.length_nil, Nat.zero_add]
      obtain ⟨u, hu, hrest⟩ := Reader.exists_of_run_append hv
      rw [hs'] at hu
      cases hu
      simp only [Reader.run] at hrest
      split at hrest
      · next w hw =>
        have room := (last.of_run hrest).frames.length_le
        rcases Reader.step_frames hw with ⟨-, -, hframes⟩ | ⟨hclose, -⟩ | ⟨flat, -⟩
        · omega
        · rw [paren] at hclose
          cases hclose
        · rw [paren] at flat
          cases flat
      · cases hrest
    · cases h

theorem limited : Limited limit limit' ts where
  same := by
    rcases ofTokens_eq_or_full hle ts with same | ⟨before, p, rest, s, rfl, hs, -, paren, full, refused⟩
    · exact Or.inl same
    · refine Or.inr ⟨_, before, p, refused, Reader.firstBeyond_of_run hs paren full rest, rfl, ?_⟩
      simp only [Fault.diagnostic, Fault.span_token, Fault.Cause.code, Fault.Cause.related]
  accepted := by
    intro row
    constructor
    · intro h
      rcases ofTokens_eq_or_full hle ts with same | ⟨before, p, rest, s, rfl, -, -, -, -, refused⟩
      · exact ⟨same.symm.trans h, nesting_le_of_ofTokens h⟩
      · rw [refused] at h
        cases h
    · exact fun h => ofTokens_of_nesting_le hle ts h.1 h.2

end Limited

end Row

theorem Layout.depth_le_of_ofLine {s : Settings} {line : String} {l : Layout} (h : ofLine s line = .ok l) :
    l.depth ≤ s.maxDepth := by
  obtain ⟨ts, row, -, hrow, hl⟩ := exists_of_ofLine h
  rw [depth_eq_nesting hl]
  exact Row.nesting_le_of_ofTokens hrow

/-- A lower limit changes nothing but what nests too deeply for it, and no layout is deeper than the limit. -/
theorem limited_of_le :
    (∀ limit limit' ts, limit ≤ limit' → Row.Limited limit limit' ts) ∧
      ∀ s line l, Layout.ofLine s line = .ok l → l.depth ≤ s.maxDepth :=
  ⟨fun _ _ ts hle => Row.limited hle ts, fun _ _ _ h => Layout.depth_le_of_ofLine h⟩

/-- The tokens of `()-2(())` under a limit of one, which the last opening parenthesis is beyond, and a line that nests as
    deeply as its limit allows. -/
theorem limited_of_nested_groups :
    let token (v : Token) (n : Nat) : Located Token := ⟨v, ⟨n, n + 1⟩⟩
    let ts := [token .leftParen 0, token .rightParen 1, token .minus 2, token (.integer 2) 3, token .leftParen 4,
      token .leftParen 5, token .rightParen 6, token .rightParen 7]
    let s : Settings := { maxDepth := 2 }
    Row.Limited 1 2 ts ∧ Row.ofTokens 1 ts = .error ⟨.tooDeep, 5, 6⟩ ∧ (Row.ofTokens 2 ts).isOk = true ∧
      ∃ l, Layout.ofLine s "((1o))" = .ok l ∧ l.depth ≤ s.maxDepth := by
  intro token ts s
  have placed : (Layout.ofLine s "((1o))").toOption.isSome = true := by decide +kernel
  refine ⟨limited_of_le.1 1 2 ts (by decide), by decide +kernel, by decide +kernel, ?_⟩
  cases h : Layout.ofLine s "((1o))" with
  | error problem =>
    rw [h] at placed
    cases placed
  | ok l => exact ⟨l, rfl, limited_of_le.2 s _ l h⟩

end Dotwork
