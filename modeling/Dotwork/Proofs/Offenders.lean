import Dotwork.Proofs.Classes
import Dotwork.Proofs.Limits

/-!
# What breaks a line

What the grammar of rows finds wrong with a list of tokens that is no row, however deep its groups may nest: the token
that no row has at its place, the group that nothing closes, and the beginning of a term that comes to nothing. A
reader that stops, or is at the end, tells each of them by where it stands.
-/

namespace Dotwork

/-- No group is open behind the tokens. -/
def Tokens.Closed (ts : List (Located Token)) : Prop :=
  Bracket.Balanced (Tokens.brackets ts)

/-- The innermost group that is open behind the tokens is the one that `paren` opens, with `inner` in it. -/
structure Tokens.Open (ts : List (Located Token)) (paren : Located Token) (inner : List (Located Token)) : Prop where
  split : ∃ outer, ts = outer ++ paren :: inner
  paren : paren.value = .leftParen
  closed : Tokens.Closed inner

namespace Row

/-! ### Offenders -/

/-- The token `t` behind `before` is the first one that no row has at its place, however deep its groups nest. -/
structure Offends (ts before : List (Located Token)) (t : Located Token) : Prop where
  here : ∃ rest, ts = before ++ t :: rest
  breaks : ∀ limit, ts.length ≤ limit → Breaks limit before t

/-- The tokens are the beginning of a row, if its groups may nest as deep as they like. -/
def Unfinished (ts : List (Located Token)) : Prop :=
  ∀ limit, ts.length ≤ limit → Viable limit ts

/-! ### Beginnings of terms -/

/-- Behind `before` a term can begin with the token `first`: in the innermost open group, or outside of all, stand
    finished terms and what ties the next one to them. -/
def Admits (before : List (Located Token)) (first : Token) : Prop :=
  ∃ outer front done, before = outer ++ front ∧ (outer = [] ∨ ∃ o p, outer = o ++ [⟨.leftParen, p⟩]) ∧
    Reader.Upto done front first

/-- With the tokens `lead` a term begins behind `before`, up to its symbol or its parenthesis. -/
structure Begun (before lead : List (Located Token)) : Prop where
  some : lead ≠ []
  admits : ∀ t ∈ lead.head?, Admits before t.value
  lead : ∃ rest sign magnitude, GroupLead (lead ++ rest) sign magnitude

/-- Why there is no count in front of a symbol. -/
inductive NoCount : List (Located Token) → Fault.Cause → Prop
  | missing {lead : List (Located Token)} (signs : ∀ t ∈ lead, ∀ n, t.value ≠ .integer n) : NoCount lead .countMissing
  | zero (m s : Span) : NoCount [⟨.minus, m⟩, ⟨.integer 0, s⟩] .zeroNegated
  | plus (n : Nat) (p s : Span) : NoCount [⟨.plus, p⟩, ⟨.integer n, s⟩] .plusOnCluster
  | signs (g : Sign) (n : Nat) (p m s : Span) :
    NoCount [⟨g.token, p⟩, ⟨.minus, m⟩, ⟨.integer n, s⟩] .twoSignsOnCluster

/-- What a beginning ends with that has neither a symbol nor a parenthesis behind it. -/
inductive EndsWith : List (Located Token) → Fault.Cause → Prop
  | count (front : List (Located Token)) (n : Nat) (s : Span) : EndsWith (front ++ [⟨.integer n, s⟩]) .countAlone
  | sign (front : List (Located Token)) (g : Sign) (s : Span) : EndsWith (front ++ [⟨g.token, s⟩]) .signAlone

/-- The beginning of a term that comes to nothing, with the symbol behind it if there is one. -/
inductive Malformed (ts : List (Located Token)) : List (Located Token) → Fault.Cause → Prop
  | symbol {before lead : List (Located Token)} {x : Symbol} {p : Span} {cause : Fault.Cause}
    (begun : Begun before lead) (offends : Offends ts (before ++ lead) ⟨.symbol x, p⟩) (why : NoCount lead cause) :
    Malformed ts (lead ++ [⟨.symbol x, p⟩]) cause
  | paren {before : List (Located Token)} {g : Sign} {p m q : Span} (begun : Begun before [⟨g.token, p⟩, ⟨.minus, m⟩])
    (offends : Offends ts (before ++ [⟨g.token, p⟩, ⟨.minus, m⟩]) ⟨.leftParen, q⟩) :
    Malformed ts [⟨g.token, p⟩, ⟨.minus, m⟩] .magnitudeMissing
  | other {before lead : List (Located Token)} {t : Located Token} {cause : Fault.Cause} (begun : Begun before lead)
    (offends : Offends ts (before ++ lead) t) (noSymbol : ∀ x, t.value ≠ .symbol x) (noParen : t.value ≠ .leftParen)
    (last : EndsWith lead cause) : Malformed ts lead cause
  | line {before lead : List (Located Token)} {cause : Fault.Cause} (begun : Begun before lead)
    (unfinished : Unfinished ts) (split : ts = before ++ lead) (last : EndsWith lead cause) : Malformed ts lead cause

theorem NoCount.related {lead : List (Located Token)} {cause : Fault.Cause} (h : NoCount lead cause) :
    cause.related = [] := by
  cases h <;> rfl

theorem EndsWith.related {lead : List (Located Token)} {cause : Fault.Cause} (h : EndsWith lead cause) :
    cause.related = [] := by
  cases h <;> rfl

namespace Reader
variable {limit limit' position : Nat} {s s' : State} {t : Located Token} {f : Fault} {ts : List (Located Token)}

/-! ### Limits that a line cannot reach -/

/-- A limit that leaves room for one more group changes nothing, unless there was no room. -/
theorem step_eq_of_room (limit position : Nat) (t : Located Token) (room : s.frames.length < limit') :
    step limit' position s t = step limit position s t ∨
      step limit position s t = .error ⟨.tooDeep, position, position + 1⟩ := by
  cases response position s t with
  | opens first sign magnitude u paren frames eq =>
    rw [eq, eq, openGroup, openGroup, frames, if_pos room]
    by_cases h : s.frames.length < limit
    · exact Or.inl (if_pos h).symm
    · exact Or.inr (if_neg h)
  | closes _ eq | moves _ eq | refuses _ eq => exact Or.inl ((eq limit').trans (eq limit).symm)

theorem frames_length_le_of_run (h : run limit 0 Reader.start ts = .ok s) : s.frames.length ≤ ts.length := by
  have hnumber := number_leftParen_of_run h
  have hle : Tokens.number .leftParen ts ≤ ts.length := List.countP_le_length
  omega

theorem run_of_length_le (h : run limit 0 Reader.start ts = .ok s) (deep : ts.length ≤ limit') :
    run limit' 0 Reader.start ts = .ok s := by
  -- Behind `ws` at most as many groups are open as it has tokens, so there is room for one more.
  refine run_induction (P := fun ws s => ws.length ≤ limit' → run limit' 0 Reader.start ws = .ok s) (fun _ => rfl)
    (fun ws t rest s s' _ ih hs deep => ?_) h deep
  rw [List.length_append, List.length_singleton] at deep
  have hws := ih (Nat.le_of_succ_le deep)
  have room : s.frames.length < limit' := Nat.lt_of_le_of_lt (frames_length_le_of_run hws) deep
  refine run_trans hws ?_
  rw [Nat.zero_add]
  rcases step_eq_of_room limit ws.length t room with same | full
  · simp only [run, same, hs]
  · rw [full] at hs
    cases hs

theorem StopsAt.offends {before : List (Located Token)} (h : StopsAt limit before s t f)
    (rest : List (Located Token)) (hf : f.cause ≠ .tooDeep) : Offends (before ++ t :: rest) before t := by
  refine ⟨⟨rest, rfl⟩, fun limit' deep => ?_⟩
  rw [List.length_append, List.length_cons] at deep
  have hdeep : before.length ≤ limit' := by omega
  have room : s.frames.length < limit' := Nat.lt_of_le_of_lt (frames_length_le_of_run h.takes) (by omega)
  have stops : step limit' before.length s t = .error f := by
    rcases step_eq_of_room limit before.length t room with same | full
    · rw [same, h.stops]
    · exact absurd (congrArg Fault.cause (h.fault_eq full)) hf
  exact StopsAt.breaks ⟨run_of_length_le h.takes hdeep, stops, h.reads⟩ hdeep

theorem Reads.unfinished (h : Reads s ts) (hrun : run limit 0 Reader.start ts = .ok s) : Unfinished ts :=
  fun _ deep =>
    viable_of_run (run_of_length_le hrun deep) (h.room.2.imp_right fun room => Nat.lt_of_lt_of_le room deep)

/-! ### What a reader tells about the tokens -/

theorem Frames.ends {frames : List Frame} {outer : List (Located Token)} (h : Frames frames outer) :
    outer = [] ∨ ∃ o p, outer = o ++ [⟨.leftParen, p⟩] := by
  cases h with
  | nil => exact Or.inl rfl
  | cons => exact Or.inr ⟨_, _, rfl⟩

theorem Behind.exists_words {done : List Entry} {term : Term} {ws : List (Located Token)} (h : Behind done term ws) :
    ∃ front words, ws = front ++ words ∧ WritesTerm words term := by
  obtain ⟨front, w, words, rfl, -, writes⟩ := h
  exact ⟨front, w :: words, rfl, writes⟩

theorem closed_of_derives {row : Row} (h : Derives ts row) : Tokens.Closed ts := by
  rw [Tokens.Closed, h.agrees.brackets]
  exact row.level_events 0

theorem Reads.closed (h : Reads s ts) (rests : s.Rests) (outer : s.frames = []) : Tokens.Closed ts := by
  obtain ⟨_, inner, rfl, frames, hat⟩ := h
  rw [outer] at frames
  cases frames
  exact closed_of_derives (hat.derives rests)

theorem Reads.exists_open {g : Frame} {fs : List Frame} (h : Reads s ts) (rests : s.Rests) (hs : s.frames = g :: fs) :
    ∃ outer inner, ts = outer ++ ⟨.leftParen, g.paren⟩ :: inner ∧ g.position = outer.length ∧
      Tokens.Closed inner ∧ At (outer.length + 1) s.done s.stand inner := by
  obtain ⟨_, inner, rfl, frames, hat⟩ := h
  have closed := closed_of_derives (hat.derives rests)
  rw [hs] at frames
  cases frames with
  | @cons _ outer before lead _ _ _ _ _ position =>
    refine ⟨outer ++ before ++ lead, inner, by simp, position, closed, ?_⟩
    have hlength : (outer ++ before ++ lead ++ [(⟨.leftParen, g.paren⟩ : Located Token)]).length =
        (outer ++ before ++ lead).length + 1 := List.length_append
    rwa [hlength] at hat

theorem Reads.exists_plus {last : Term} {join : Span} (h : Reads s ts)
    (hs : s.stand = .behindPlus last join ∨ s.stand = .behindPlusBlank last join) :
    ∃ front words a b p, ts = front ++ words ++ (a ++ ⟨.plus, p⟩ :: b) ∧ WritesTerm words last ∧ Gap a ∧ Gap b ∧
      (b = [] → s.stand = .behindPlus last join) := by
  obtain ⟨outer, inner, rfl, -, hat⟩ := h
  rcases hs with hs | hs
  · rw [hs] at hat
    obtain ⟨ws, a, p, rfl, ha, -, behind⟩ := hat
    obtain ⟨front, words, rfl, writes⟩ := behind.exists_words
    exact ⟨outer ++ front, words, a, [], p, by simp, writes, ha, .none, fun _ => hs⟩
  · rw [hs] at hat
    obtain ⟨ws, a, p, q, rfl, ha, -, behind⟩ := hat
    obtain ⟨front, words, rfl, writes⟩ := behind.exists_words
    exact ⟨outer ++ front, words, a, [⟨.blank, q⟩], p, by simp, writes, ha, .blank q, nofun⟩

/-! ### Beginnings that come to nothing -/

namespace Lead
variable {l : Lead} {cause : Fault.Cause}

theorem Formed.exists_groupLead (h : l.Formed) : ∃ rest sign magnitude, GroupLead (l.words ++ rest) sign magnitude := by
  obtain ⟨position, first, sign, negation, count⟩ := l
  rcases sign with _ | ⟨g, p⟩
  · obtain rfl : negation = none := h.second rfl
    rcases count with _ | ⟨n, q⟩
    · exact ⟨[], _, _, .bare⟩
    · exact ⟨[], _, _, .magnitude n q⟩
  · rcases negation with _ | m
    · rcases count with _ | ⟨n, q⟩
      · exact ⟨[], _, _, .sign g p⟩
      · exact ⟨[], _, _, .signed g n p q⟩
    · rcases count with _ | ⟨n, q⟩
      · exact ⟨[⟨.integer 0, default⟩], _, _, .negated g 0 p m default⟩
      · exact ⟨[], _, _, .negated g n p m q⟩

theorem Formed.noCount (h : l.Formed) (hc : l.clusterCount = .error cause) : NoCount l.words cause := by
  obtain ⟨position, first, sign, negation, count⟩ := l
  rcases count with _ | ⟨n, q⟩
  · cases hc
    refine .missing fun t ht n hn => ?_
    have signs : ∀ g : Sign, g.token ≠ .integer n := fun g => by cases g <;> nofun
    rcases List.mem_append.mp (List.mem_append.mp ht |>.resolve_right List.not_mem_nil) with ht | ht
    · obtain ⟨g, -, rfl⟩ := List.mem_map.mp ht
      exact signs g.value hn
    · obtain ⟨m, -, rfl⟩ := List.mem_map.mp ht
      cases hn
  · rcases sign with _ | ⟨g, p⟩
    · obtain rfl : negation = none := h.second rfl
      cases hc
    · rcases negation with _ | m
      · cases g with
        | plus =>
          cases hc
          exact .plus n p q
        | minus =>
          by_cases hn : n = 0
          · subst hn
            cases hc
            exact .zero p q
          · simp [clusterCount, hn] at hc
      · cases hc
        exact .signs g n p m q

theorem Formed.noMagnitude (h : l.Formed) (hm : l.magnitude = .error cause) :
    cause = .magnitudeMissing ∧ ∃ g p m, l.words = [⟨Sign.token g, p⟩, ⟨.minus, m⟩] := by
  obtain ⟨position, first, sign, negation, count⟩ := l
  rcases negation with _ | m
  · cases hm
  · rcases count with _ | ⟨n, q⟩
    · cases hm
      rcases sign with _ | ⟨g, p⟩
      · cases h.second rfl
      · exact ⟨rfl, g, p, m, rfl⟩
    · cases hm

theorem Formed.endsWith (h : l.Formed) (position : Nat) : EndsWith l.words (l.cutOff position).cause := by
  obtain ⟨start, first, sign, negation, count⟩ := l
  rcases count with _ | ⟨n, q⟩
  · rcases negation with _ | m
    · rcases sign with _ | ⟨g, p⟩
      · obtain ⟨⟨t, rest, hw, -⟩, -⟩ := h
        cases hw
      · exact .sign [] g p
    · have last := EndsWith.sign (sign.toList.map (Located.map Sign.token)) .minus m
      rwa [← List.append_nil (_ ++ _)] at last
  · exact .count _ n q

end Lead

/-- A reader in the beginning of a term has read this one where a term can begin. -/
theorem Reads.begun {l : Lead} (h : Reads s ts) (hs : s.stand = .lead l) :
    l.Formed ∧ ∃ before, ts = before ++ l.words ∧ l.position = before.length ∧ Begun before l.words := by
  obtain ⟨outer, _, rfl, frames, hat⟩ := h
  rw [hs] at hat
  obtain ⟨formed, before, rfl, position, upto⟩ := hat
  obtain ⟨w, words, hw, -⟩ := formed.start
  refine ⟨formed, outer ++ before, (List.append_assoc ..).symm, position.trans List.length_append.symm, ?_⟩
  exact ⟨hw ▸ List.cons_ne_nil w words, fun t ht => ⟨outer, before, s.done, rfl, frames.ends, upto t ht⟩,
    formed.exists_groupLead⟩

end Reader

end Row

end Dotwork
