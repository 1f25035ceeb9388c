import Dotwork.Proofs.Lexing

/-!
# Well-formed rows

The shape of the rows that lines write: counts and magnitudes are signed words, and the join behind a term is one
that the two terms around it leave open. Every row that is read has this shape, and its groups nest no deeper than
the limit.
-/

namespace Dotwork

/-- A magnitude is a signed word, and not negative where no sign stands in front of it. -/
def Head.Fits (h : Head) : Prop :=
  match h.magnitude with
  | none => True
  | some m => m.value.natAbs ≤ Word.greatestSigned ∧ (h.sign = none → 0 ≤ m.value)

namespace Row

/-- The first term is a group with a plus sign. -/
def beginsPlus : Row → Bool
  | .group h _ _ _ => h.sign.map Located.value == some .plus
  | .nil | .cluster .. => false

/-- The first term is a group with neither sign nor magnitude. -/
def beginsBare : Row → Bool
  | .group h _ _ _ => h.isBare
  | .nil | .cluster .. => false

/-- The joins that can stand behind a term and in front of the rest of its row; `closed` says that the term is a
    group. -/
def JoinFits (closed : Bool) (join : Option (Located Join)) (rest : Row) : Prop :=
  if rest.isEmpty then join = none
  else
    join.map Located.value = some .plus ∨
      rest.beginsPlus = false ∧ join.map Located.value = if closed || rest.beginsBare then none else some .space

/-- At every level counts, magnitudes and joins are such as tokens can write. -/
def Shaped : Row → Prop
  | .nil => True
  | .cluster c join rest => c.magnitude ≤ Word.greatestSigned ∧ JoinFits false join rest ∧ rest.Shaped
  | .group h body join rest => h.Fits ∧ body.Shaped ∧ JoinFits true join rest ∧ rest.Shaped

/-- A row as a line with at most `limit` open groups can write it. -/
structure WellFormed (limit : Nat) (row : Row) : Prop where
  shaped : row.Shaped
  nesting : row.nesting ≤ limit

/-! ### The shape of what tokens write -/

theorem CountLead.natAbs_le {lead : List (Located Token)} {count : Int} (h : CountLead lead count)
    (bounded : Bounded lead) : count.natAbs ≤ Word.greatestSigned := by
  cases h with
  | plain n s => exact bounded ⟨.integer n, s⟩ (by simp)
  | negated n m s pos =>
    have hn : n ≤ Word.greatestSigned := bounded ⟨.integer n, s⟩ (by simp)
    rwa [Int.natAbs_neg, Int.natAbs_natCast]

theorem GroupLead.fits {lead : List (Located Token)} {sign : Option (Located Sign)}
    {magnitude : Option (Located Int)} (h : GroupLead lead sign magnitude) (bounded : Bounded lead)
    (parens span : Span) : Head.Fits ⟨sign, magnitude, parens, span⟩ := by
  cases h with
  | bare | sign => trivial
  | magnitude n s => exact ⟨bounded ⟨.integer n, s⟩ (by simp), fun _ => Int.natCast_nonneg n⟩
  | signed g n p s =>
    refine ⟨bounded ⟨.integer n, s⟩ (by simp), fun h => ?_⟩
    cases h
  | negated g n p m s =>
    have hn : n ≤ Word.greatestSigned := bounded ⟨.integer n, s⟩ (by simp)
    refine ⟨by rwa [Int.natAbs_neg, Int.natAbs_natCast], fun h => ?_⟩
    cases h

/-- The first token of a row tells how its first term begins. -/
theorem Terms.begins {t : Located Token} {next : List (Located Token)} {row : Row} (h : Terms (t :: next) row) :
    row.isEmpty = false ∧ (row.beginsPlus = true ↔ t.value = .plus) ∧
      (row.beginsBare = true ↔ t.value = .leftParen) := by
  generalize hts : t :: next = ts at h
  cases h with
  | nil => cases hts
  | cluster x s counts tie terms =>
    refine ⟨rfl, ?_⟩
    cases counts <;> cases hts <;> simp [beginsPlus, beginsBare]
  | group o c leads before content behind tie terms =>
    refine ⟨rfl, ?_⟩
    cases leads with
    | bare | magnitude => cases hts; simp [beginsPlus, beginsBare, Head.isBare]
    | sign g | signed g | negated g =>
      cases hts
      cases g <;> simp [beginsPlus, beginsBare, Head.isBare, Sign.token]

theorem Tie.joinFits {closed : Bool} {gap next : List (Located Token)} {join : Option (Located Join)} {rest : Row}
    (h : Tie closed gap join next) (terms : Terms next rest) : JoinFits closed join rest := by
  cases h with
  | last =>
    rw [terms.eq_nil_iff.mp rfl]
    rfl
  | @next _ _ t next boundary =>
    obtain ⟨more, hplus, hbare⟩ := terms.begins
    rw [JoinFits, if_neg (by simp [more])]
    have hnoPlus : t.value ≠ .plus → rest.beginsPlus = false := fun h => by
      simpa using mt hplus.mp h
    cases boundary with
    | plus => exact Or.inl rfl
    | space s cluster noPlus noParen =>
      have hnoBare : rest.beginsBare = false := by simpa using mt hbare.mp noParen
      exact Or.inr ⟨hnoPlus noPlus, by simp [cluster, hnoBare]⟩
    | touch paren noPlus gap =>
      refine Or.inr ⟨hnoPlus noPlus, ?_⟩
      rcases paren with hc | hl
      · simp [hc]
      · simp [hbare.mpr hl]

theorem Terms.shaped {ts : List (Located Token)} {row : Row} (h : Terms ts row) (bounded : Bounded ts) :
    row.Shaped := by
  induction h with
  | nil => trivial
  | cluster x s counts tie terms ih =>
    exact ⟨counts.natAbs_le fun t ht => bounded t (by simp [ht]), tie.joinFits terms,
      ih fun t ht => bounded t (by simp [ht])⟩
  | group o c leads before content behind tie terms ihb ih =>
    exact ⟨leads.fits (fun t ht => bounded t (by simp [ht])) _ _, ihb fun t ht => bounded t (by simp [ht]),
      tie.joinFits terms, ih fun t ht => bounded t (by simp [ht])⟩

/-- Every row that is read off the tokens of a line is well-formed. -/
theorem wellFormed_of_ofTokens {limit : Nat} {ts : List (Located Token)} {row : Row} (admissible : Admissible ts)
    (h : ofTokens limit ts = .ok row) : row.WellFormed limit := by
  obtain ⟨a, ws, b, rfl, -, terms, -⟩ := derives_of_ofTokens admissible.spaced h
  refine ⟨terms.shaped fun t ht => admissible.bounded t ?_, nesting_le_of_ofTokens h⟩
  simp [ht]

/-- A line that is read has tokens, and its row is read off them. -/
theorem ofLine_eq_ok_iff {limit : Nat} {line : String} {row : Row} :
    ofLine limit line = .ok row ↔ ∃ ts, Token.ofLine line = .ok ts ∧ ofTokens limit ts = .ok row := by
  unfold ofLine
  cases Token.ofLine line with
  | error report => simp
  | ok ts => cases ht : ofTokens limit ts <;> simp [Except.mapError, ht]

end Row

end Dotwork
