import Dotwork.Proofs.Nesting

/-!
# What a reader accepts

A reader takes every list of tokens that the grammar derives, as long as the groups in it nest no deeper than the
limit. The induction is on the derivation: from the first token of some terms the reader gets behind the last of
them, with no more groups open than before. Together with soundness this makes the grammar exact.
-/

namespace Dotwork

/-- Integers are signed words. -/
def Token.InRange : Token → Prop
  | .integer n => n ≤ Word.greatestSigned
  | _ => True

namespace Row

/-- All integers are signed words. -/
def Bounded (ts : List (Located Token)) : Prop :=
  ∀ t ∈ ts, t.value.InRange

namespace Reader
variable {limit position : Nat} {s : State}

/-! ### Runs -/

theorem run_cons {u : State} {t : Located Token} {rest : List (Located Token)} (h : step limit position s t = .ok u) :
    run limit position s (t :: rest) = run limit (position + 1) u rest := by
  simp only [run, h]

theorem run_trans {u v : State} {first rest : List (Located Token)} (h₁ : run limit position s first = .ok u)
    (h₂ : run limit (position + first.length) u rest = .ok v) : run limit position s (first ++ rest) = .ok v := by
  rw [run_append, h₁]
  exact h₂

/-- With the token `t` the reader `s` begins a term as one that holds what `u` holds. -/
def Enters (s : State) (t : Located Token) (u : State) : Prop :=
  ∀ limit position, step limit position s t = beginTerm limit position t u

theorem enters_fresh {t : Located Token} (hs : s.stand = .fresh) (ht : t.value.startsTerm = true) :
    Enters s t s := fun limit position => by
  obtain ⟨v, p⟩ := t
  simp only [step, hs]
  cases v <;> first | rfl | cases ht

/-! ### Beginnings of terms -/

theorem Enters.integer {n : Nat} {q : Span} {u : State} (h : Enters s ⟨.integer n, q⟩ u)
    (hn : n ≤ Word.greatestSigned) :
    step limit position s ⟨.integer n, q⟩ = .ok { u with stand := .lead ⟨position, q, none, none, some ⟨n, q⟩⟩ } := by
  rw [h]
  simp only [beginTerm, hn, ↓reduceIte]

theorem Enters.sign {g : Sign} {q : Span} {u : State} (h : Enters s ⟨g.token, q⟩ u) :
    step limit position s ⟨g.token, q⟩ = .ok { u with stand := .lead ⟨position, q, some ⟨g, q⟩, none, none⟩ } := by
  rw [h]
  cases g <;> rfl

theorem countLead_run (limit position : Nat) {lead : List (Located Token)} {count : Int} (h : CountLead lead count)
    (bounded : Bounded lead) {t : Located Token} (ht : lead.head? = some t) {u : State} (enters : Enters s t u)
    (x : Symbol) (p : Span) :
    run limit position s (lead ++ [⟨.symbol x, p⟩]) =
      .ok { u with stand := .behind (.cluster ⟨count, x, (startSpan lead p).union p⟩) } := by
  cases h with
  | plain n q =>
    cases ht
    have hn : n ≤ Word.greatestSigned := bounded _ (List.mem_singleton_self _)
    rw [List.singleton_append, run_cons (enters.integer hn)]
    rfl
  | negated n m q pos =>
    cases ht
    have hn : n ≤ Word.greatestSigned := bounded ⟨.integer n, q⟩ (by simp)
    have hpos : n ≠ 0 := by omega
    have first : step limit position s ⟨.minus, m⟩ = _ := Enters.sign (g := .minus) enters
    rw [List.cons_append, run_cons first]
    simp [run, step, stepLead, hn, Lead.clusterCount, hpos, startSpan]

theorem groupLead_run (limit position : Nat) {lead : List (Located Token)} {sign : Option (Located Sign)}
    {magnitude : Option (Located Int)} (h : GroupLead lead sign magnitude) (bounded : Bounded lead) (o : Span)
    {t : Located Token} (ht : (lead ++ [(⟨.leftParen, o⟩ : Located Token)]).head? = some t) {u : State}
    (enters : Enters s t u) (room : u.frames.length < limit) :
    run limit position s (lead ++ [⟨.leftParen, o⟩]) =
      .ok ⟨⟨u.done, startSpan lead o, sign, magnitude, o, position + lead.length⟩ :: u.frames, [], .fresh⟩ := by
  have hint : ∀ {n : Nat} {q : Span}, (⟨.integer n, q⟩ : Located Token) ∈ lead → n ≤ Word.greatestSigned :=
    fun hm => bounded _ hm
  cases h with
  | bare =>
    cases ht
    simp only [List.nil_append, run, enters limit, beginTerm, openGroup, room, ↓reduceIte]
    rfl
  | magnitude n q =>
    cases ht
    rw [List.singleton_append, run_cons (enters.integer (hint (List.mem_singleton_self _)))]
    simp [run, step, stepLead, Lead.magnitude, openGroup, room, startSpan]
  | sign g q =>
    cases ht
    rw [List.singleton_append, run_cons enters.sign]
    simp [run, step, stepLead, Lead.magnitude, openGroup, room, startSpan]
  | signed g n q r =>
    cases ht
    have hn : n ≤ Word.greatestSigned := hint (q := r) (by simp)
    rw [List.cons_append, run_cons enters.sign]
    simp [run, step, stepLead, hn, Lead.magnitude, openGroup, room, startSpan]
  | negated g n q m r =>
    cases ht
    have hn : n ≤ Word.greatestSigned := hint (q := r) (by simp)
    rw [List.cons_append, run_cons enters.sign]
    simp [run, step, stepLead, hn, Lead.magnitude, openGroup, room, startSpan]

/-! ### Between terms -/

section Between
variable {last : Term} {t : Located Token} (ht : t.value.startsTerm = true)
include ht

theorem enters_behind (hs : s.stand = .behind last) (touches : last.isGroup = true ∨ t.value = .leftParen)
    (noPlus : t.value ≠ .plus) : Enters s t (tie last none s) := fun limit position => by
  obtain ⟨v, p⟩ := t
  cases v with
  | integer | minus =>
    have closed : last.isGroup = true := touches.resolve_right (by simp)
    simp [step, hs, stepBehind, closed]
  | leftParen => simp [step, hs, stepBehind]
  | plus => exact absurd rfl noPlus
  | symbol | rightParen | blank => cases ht

theorem enters_behindBlank {blank : Span} (hs : s.stand = .behindBlank last blank) (noPlus : t.value ≠ .plus) :
    Enters s t (tie last (if last.isGroup ∨ t.value = .leftParen then none else some ⟨.space, blank⟩) s) :=
  fun limit position => by
    obtain ⟨v, p⟩ := t
    cases v with
    | integer | minus | leftParen => simp [step, hs, stepBehindBlank]
    | plus => exact absurd rfl noPlus
    | symbol | rightParen | blank => cases ht

theorem enters_behindPlus {join : Span}
    (hs : s.stand = .behindPlus last join ∨ s.stand = .behindPlusBlank last join) :
    Enters s t (tie last (some ⟨.plus, join⟩) s) := fun limit position => by
  have hblank : t.value.isBlank = false := by
    obtain ⟨v, p⟩ := t
    cases v <;> first | rfl | cases ht
  rcases hs with hs | hs <;> simp [step, hs, stepBehindJoin, ht, hblank]

/-- Behind a term a boundary brings the reader to the beginning of the next one. -/
theorem boundary_run (limit position : Nat) {gap : List (Located Token)} {join : Option (Located Join)}
    (h : Boundary last.isGroup t.value gap join) (hs : s.stand = .behind last) :
    ∃ u, run limit position s gap = .ok u ∧ u.frames = s.frames ∧ u.done = s.done ∧
      Enters u t (tie last join u) := by
  obtain ⟨fs, done, stand⟩ := s
  obtain rfl : stand = .behind last := hs
  cases h with
  | plus q before behind =>
    cases before <;> cases behind
    · exact ⟨_, rfl, rfl, rfl, enters_behindPlus ht (Or.inl rfl)⟩
    · exact ⟨_, rfl, rfl, rfl, enters_behindPlus ht (Or.inr rfl)⟩
    · exact ⟨_, rfl, rfl, rfl, enters_behindPlus ht (Or.inl rfl)⟩
    · exact ⟨_, rfl, rfl, rfl, enters_behindPlus ht (Or.inr rfl)⟩
  | space q cluster noPlus noParen =>
    have enters := enters_behindBlank (s := ⟨fs, done, .behindBlank last q⟩) ht rfl noPlus
    rw [if_neg (by simp [cluster, noParen])] at enters
    exact ⟨_, rfl, rfl, rfl, enters⟩
  | touch paren noPlus gap =>
    cases gap with
    | none => exact ⟨_, rfl, rfl, rfl, enters_behind ht rfl paren noPlus⟩
    | blank q =>
      have enters := enters_behindBlank (s := ⟨fs, done, .behindBlank last q⟩) ht rfl noPlus
      rw [if_pos paren] at enters
      exact ⟨_, rfl, rfl, rfl, enters⟩

end Between

/-! ### Terms -/

/-- A reader that stands in front of the tokens of some terms gets behind the last of them, with the groups that
    were open before. -/
def Taken (limit : Nat) (ts : List (Located Token)) (row : Row) : Prop :=
  ∀ t, ts.head? = some t → ∀ position s u, Enters s t u → u.frames.length + row.nesting ≤ limit →
    ∃ v last, run limit position s ts = .ok v ∧ v.frames = u.frames ∧ v.stand = .behind last ∧
      v.entries = row.toList.reverse ++ u.done

/-- Behind a term a reader takes all that is tied to it. -/
theorem tie_taken (limit position : Nat) {last : Term} {gap next : List (Located Token)}
    {join : Option (Located Join)} {rest : Row} (tie : Tie last.isGroup gap join next) (terms : Terms next rest)
    (taken : Taken limit next rest) (hs : s.stand = .behind last) (fits : s.frames.length + rest.nesting ≤ limit) :
    ∃ v last', run limit position s (gap ++ next) = .ok v ∧ v.frames = s.frames ∧ v.stand = .behind last' ∧
      v.entries = (⟨last, join⟩ :: rest.toList).reverse ++ s.done := by
  cases tie with
  | last =>
    obtain rfl := terms.eq_nil_iff.mp rfl
    exact ⟨s, last, rfl, rfl, hs, by simp [State.entries, hs, toList]⟩
  | @next gap join t next boundary =>
    have ht : t.value.startsTerm = true := by
      obtain ⟨h, -⟩ | ⟨t', rest', h, ht⟩ := terms.head
      · cases h
      · cases h
        exact ht
    obtain ⟨u, hu, hframes, hdone, enters⟩ := boundary_run ht limit position boundary hs
    obtain ⟨v, last', hv, hvf, hvs, hve⟩ :=
      taken t rfl (position + gap.length) u (Reader.tie last join u) enters
        (by simpa [Reader.tie, hframes] using fits)
    refine ⟨v, last', run_trans hu hv, hvf.trans hframes, hvs, ?_⟩
    simp [hve, Reader.tie, hdone]

/-- A reader at the start of a row takes the whole row and rests behind it. -/
theorem taken_rests (limit position : Nat) {a ws b : List (Located Token)} {row : Row} (ha : Gap a)
    (terms : Terms ws row) (hb : Gap b) (taken : Taken limit ws row) (hs : s.stand = .fresh) (hd : s.done = [])
    (fits : s.frames.length + row.nesting ≤ limit) :
    ∃ v, run limit position s (a ++ ws ++ b) = .ok v ∧ v.frames = s.frames ∧ v.Rests ∧ v.row = row := by
  -- A blank in front of the first term, or in a row without terms, leaves the reader as it is.
  have first : run limit position s a = .ok s := by
    cases ha with
    | none => rfl
    | blank p => simp [run, step, hs]
  obtain ⟨v, hv, hvf, hrests, hrow⟩ : ∃ v, run limit (position + a.length) s ws = .ok v ∧ v.frames = s.frames ∧
      (v.stand = .fresh ∨ ∃ t, v.stand = .behind t) ∧ v.row = row := by
    rcases terms.head with ⟨rfl, rfl⟩ | ⟨t, rest, rfl, ht⟩
    · exact ⟨s, rfl, rfl, Or.inl hs, by simp [State.row, State.entries, hs, hd, ofList]⟩
    · obtain ⟨v, last, hv, hvf, hvs, hve⟩ := taken t rfl (position + a.length) s s (enters_fresh hs ht) fits
      refine ⟨v, hv, hvf, Or.inr ⟨last, hvs⟩, ?_⟩
      rw [State.row, hve, hd, List.append_nil, List.reverse_reverse, ofList_toList]
  cases hb with
  | none =>
    rw [List.append_nil]
    refine ⟨v, run_trans first hv, hvf, ?_, hrow⟩
    exact hrests.imp id Or.inl
  | blank p =>
    rcases hrests with hvs | ⟨t, hvs⟩
    · have last : run limit (position + (a ++ ws).length) v [⟨.blank, p⟩] = .ok v := by simp [run, step, hvs]
      exact ⟨v, run_trans (run_trans first hv) last, hvf, Or.inl hvs, hrow⟩
    · have last : run limit (position + (a ++ ws).length) v [⟨.blank, p⟩] =
          .ok { v with stand := .behindBlank t p } := by
        simp [run, step, stepBehind, hvs]
      refine ⟨_, run_trans (run_trans first hv) last, hvf, Or.inr (Or.inr ⟨t, p, rfl⟩), ?_⟩
      rw [← hrow]
      simp [State.row, State.entries, hvs]

theorem step_close (limit position : Nat) {v : State} (hv : v.Rests) (c : Span) :
    step limit position v ⟨.rightParen, c⟩ = closeGroup position c v := by
  rcases hv with h | ⟨t, h⟩ | ⟨t, blank, h⟩ <;> simp [step, stepBehind, stepBehindBlank, h]

/-- A reader that opens a group closes it behind a body that is taken. -/
theorem group_run (limit position : Nat) {lead a inner b : List (Located Token)} {sign : Option (Located Sign)}
    {magnitude : Option (Located Int)} {body : Row} (o c : Span) (leads : GroupLead lead sign magnitude)
    (bounded : Bounded lead) (ha : Gap a) (content : Terms inner body) (hb : Gap b) (taken : Taken limit inner body)
    {t : Located Token} (ht : (lead ++ [(⟨.leftParen, o⟩ : Located Token)]).head? = some t) {u : State}
    (enters : Enters s t u) (fits : u.frames.length + (body.nesting + 1) ≤ limit) :
    run limit position s (lead ++ [⟨.leftParen, o⟩] ++ (a ++ inner ++ b) ++ [⟨.rightParen, c⟩]) =
      .ok ⟨u.frames, u.done,
        .behind (.group ⟨sign, magnitude, o.union c, (startSpan lead o).union (o.union c)⟩ body)⟩ := by
  obtain ⟨f, hf, hopen⟩ : ∃ f : Frame, f = ⟨u.done, startSpan lead o, sign, magnitude, o, position + lead.length⟩ ∧
      run limit position s (lead ++ [⟨.leftParen, o⟩]) = .ok ⟨f :: u.frames, [], .fresh⟩ :=
    ⟨_, rfl, groupLead_run limit position leads bounded o ht enters (by omega)⟩
  obtain ⟨v, hv, hvf, hrests, hrow⟩ := taken_rests limit
    (position + (lead ++ [(⟨.leftParen, o⟩ : Located Token)]).length)
    (s := ⟨f :: u.frames, [], .fresh⟩) ha content hb taken rfl rfl (by rw [List.length_cons]; omega)
  refine run_trans (run_trans hopen hv) ?_
  simp only [run, step_close _ _ hrests, closeGroup, hvf, hrow, hf]

/-- The terms of every derivation are taken. -/
theorem taken_of_terms {ts : List (Located Token)} {row : Row} (h : Terms ts row) (bounded : Bounded ts) :
    Taken limit ts row := by
  induction h with
  | nil =>
    intro t ht
    cases ht
  | @cluster lead gap next count join rest x p counts tie terms ih =>
    intro t ht position s u enters fits
    have hbl : Bounded lead := fun t ht => bounded t (by simp [ht])
    have hbn : Bounded next := fun t ht => bounded t (by simp [ht])
    have hhead : lead.head? = some t := by
      obtain ⟨w, words, rfl, -⟩ := counts.head
      exact ht
    have hterm := countLead_run limit position counts hbl hhead enters x p
    -- The term stays sealed from here on: only that it is a cluster decides what may follow it.
    generalize hc : (⟨count, x, (startSpan lead p).union p⟩ : Cluster) = c at hterm ⊢
    have tie' : Tie (Term.cluster c).isGroup gap join next := tie
    obtain ⟨v, last, hv, hkept⟩ := tie_taken limit (position + (lead ++ [(⟨.symbol x, p⟩ : Located Token)]).length)
      (s := { u with stand := .behind (.cluster c) }) tie' terms (ih hbn) rfl fits
    exact ⟨v, last, by simpa using run_trans hterm hv, hkept⟩
  | @group lead a inner b gap next sign magnitude body join rest o c leads before content behind tie terms ihb ih =>
    intro t ht position s u enters fits
    have hbl : Bounded lead := fun t ht => bounded t (by simp [ht])
    have hbi : Bounded inner := fun t ht => bounded t (by simp [ht])
    have hbn : Bounded next := fun t ht => bounded t (by simp [ht])
    have hhead : (lead ++ [(⟨.leftParen, o⟩ : Located Token)]).head? = some t := by
      cases lead <;> exact ht
    rw [nesting] at fits
    have hterm := group_run limit position o c leads hbl before content behind (ihb hbi) hhead enters (by omega)
    generalize hg : (⟨sign, magnitude, o.union c, (startSpan lead o).union (o.union c)⟩ : Head) = g at hterm ⊢
    generalize hw : lead ++ [⟨.leftParen, o⟩] ++ (a ++ inner ++ b) ++ [⟨.rightParen, c⟩] = words at hterm
    have tie' : Tie (Term.group g body).isGroup gap join next := tie
    obtain ⟨v, last, hv, hkept⟩ := tie_taken limit (position + words.length)
      (s := { u with stand := .behind (.group g body) }) tie' terms (ih hbn) rfl (by dsimp only; omega)
    refine ⟨v, last, ?_, hkept⟩
    have whole := run_trans hterm hv
    rw [← hw] at whole
    simpa using whole

end Reader

/-- A reader takes all tokens that the grammar derives. -/
theorem ofTokens_of_derives {limit : Nat} {ts : List (Located Token)} {row : Row} (bounded : Bounded ts)
    (h : Derives ts row) (fits : row.nesting ≤ limit) : ofTokens limit ts = .ok row := by
  obtain ⟨a, ws, b, rfl, ha, terms, hb⟩ := h
  have taken : Reader.Taken limit ws row := Reader.taken_of_terms terms fun t ht => bounded t (by simp [ht])
  obtain ⟨v, hv, hvf, hrests, hrow⟩ := Reader.taken_rests limit 0 (s := Reader.start) ha terms hb taken rfl rfl
    (by rw [show Reader.start.frames.length = 0 from rfl]; omega)
  have hframes : v.frames = [] := hvf
  unfold ofTokens
  rw [hv]
  rcases hrests with h | ⟨t, h⟩ | ⟨t, blank, h⟩ <;> simp only [Reader.finish, h, hframes, hrow]

/-! ### The language of a reader -/

/-- What a line can be cut into: no two blanks stand side by side, and all integers are signed words. -/
structure Admissible (ts : List (Located Token)) : Prop where
  spaced : Reader.Spaced ts
  bounded : Bounded ts

/-- The rows that are read are exactly those that the grammar derives with no more groups around a place than the
    limit allows, and the tokens derive no second row. -/
theorem ofTokens_eq_ok_iff_derives (limit : Nat) {ts : List (Located Token)} (h : Admissible ts) :
    (∀ row, ofTokens limit ts = .ok row ↔ Derives ts row ∧ row.nesting ≤ limit) ∧
      ∀ row row', Derives ts row → Derives ts row' → row = row' := by
  refine ⟨fun row => ⟨fun hr => ⟨derives_of_ofTokens h.spaced hr, nesting_le_of_ofTokens hr⟩, fun hr =>
    ofTokens_of_derives h.bounded hr.1 hr.2⟩, fun row row' hd hd' => ?_⟩
  -- The reader is a function, so under a limit that is high enough for both it reads the same row twice.
  have hr := ofTokens_of_derives h.bounded hd (Nat.le_max_left row.nesting row'.nesting)
  have hr' := ofTokens_of_derives h.bounded hd' (Nat.le_max_right row.nesting row'.nesting)
  rw [hr] at hr'
  exact Except.ok.inj hr'

/-- The tokens of `-2( )`: a minus sign and a magnitude in front of a body that is one blank. -/
theorem derives_signed_group :
    let ts : List (Located Token) := [⟨.minus, ⟨0, 1⟩⟩, ⟨.integer 2, ⟨1, 2⟩⟩, ⟨.leftParen, ⟨2, 3⟩⟩, ⟨.blank, ⟨3, 4⟩⟩,
      ⟨.rightParen, ⟨4, 5⟩⟩]
    let row : Row := .group ⟨some ⟨.minus, ⟨0, 1⟩⟩, some ⟨2, ⟨1, 2⟩⟩, ⟨2, 5⟩, ⟨0, 5⟩⟩ .nil none .nil
    Admissible ts ∧ Derives ts row ∧ ∀ row', Derives ts row' → row' = row := by
  intro ts row
  have admissible : Admissible ts := by
    constructor
    · simp [Reader.Spaced, ts]
    · simp [Bounded, Token.InRange, Word.greatestSigned, ts]
  have exact := ofTokens_eq_ok_iff_derives 1 admissible
  have derives : Derives ts row := ((exact.1 row).mp rfl).1
  exact ⟨admissible, derives, fun row' h => exact.2 row' row h derives⟩

end Row

end Dotwork
