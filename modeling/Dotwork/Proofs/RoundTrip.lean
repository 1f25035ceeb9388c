import Dotwork.Proofs.Shape

/-!
# Reading back the canonical text

The canonical text of a row is that of its canonical tokens, which always stand apart, so that the text is cut into
just these. Where the row is well-formed they write it again, up to the places of its parts.
-/

namespace Dotwork

/-! ### Canonical tokens -/

/-- The tokens of an integer. -/
def Decimal.tokens (n : Int) : List Token :=
  if n < 0 then [.minus, .integer n.natAbs] else [.integer n.natAbs]

/-- The tokens in front of the parentheses of a group. -/
def Head.tokens (h : Head) : List Token :=
  (match h.sign with
    | some g => [g.value.token]
    | none => []) ++
  (match h.magnitude with
    | some m => Decimal.tokens m.value
    | none => [])

/-- The token that a join is written with. -/
def Join.token : Join → Token
  | .space => .blank
  | .plus => .plus

namespace Row

/-- The tokens of the join in front of the rest of a row. -/
def joinTokens (join : Option (Located Join)) (rest : Row) : List Token :=
  if rest.isEmpty then [] else (join.map fun j => j.value.token).toList

/-- The canonical tokens of a row. -/
def tokens : Row → List Token
  | .nil => []
  | .cluster c join rest => Decimal.tokens c.count ++ .symbol c.symbol :: (joinTokens join rest ++ rest.tokens)
  | .group h body join rest =>
    h.tokens ++ .leftParen :: (body.tokens ++ .rightParen :: (joinTokens join rest ++ rest.tokens))

end Row

/-! ### Their text -/

theorem Decimal.flatMap_tokens (n : Int) : (tokens n).flatMap Token.chars = chars n := by
  unfold tokens chars
  split <;> simp [Token.chars]

theorem Head.flatMap_tokens (h : Head) : h.tokens.flatMap Token.chars = h.chars := by
  obtain ⟨sign, magnitude, _, _⟩ := h
  rcases sign with _ | ⟨_ | _, _⟩ <;> cases magnitude <;>
    simp [tokens, chars, Decimal.flatMap_tokens, Sign.token, Sign.char, Token.chars]

theorem Row.flatMap_joinTokens (join : Option (Located Join)) (rest : Row) :
    (joinTokens join rest).flatMap Token.chars = joinChars join rest := by
  unfold joinTokens joinChars
  split
  · rfl
  · rcases join with _ | ⟨_ | _, _⟩ <;> rfl

theorem Row.flatMap_tokens (row : Row) : row.tokens.flatMap Token.chars = row.chars := by
  induction row with
  | nil => rfl
  | cluster c join rest ih =>
    simp [tokens, chars, Cluster.chars, Decimal.flatMap_tokens, flatMap_joinTokens, ih, Token.chars]
  | group h body join rest ihb ih =>
    simp [tokens, chars, Head.flatMap_tokens, flatMap_joinTokens, ihb, ih, Token.chars]

/-! ### They stand apart -/

namespace Token

/-- The tokens that are never part of a run. -/
def isSolid : Token → Bool
  | .integer _ | .blank => false
  | .symbol _ | .plus | .minus | .leftParen | .rightParen => true

theorem apart_of_isSolid {t u : Token} (h : t.isSolid = true ∨ u.isSolid = true) : t.Apart u := by
  cases t <;> cases u <;> simp_all [isSolid, Apart]

theorem apart_cons {t : Token} {rest : List Token} (ht : t.isSolid = true) (h : rest.IsChain Apart) :
    (t :: rest).IsChain Apart :=
  List.isChain_cons.mpr ⟨fun _ _ => apart_of_isSolid (Or.inl ht), h⟩

theorem apart_cons_cons {t u : Token} {rest : List Token} (hu : u.isSolid = true) (h : (u :: rest).IsChain Apart) :
    (t :: u :: rest).IsChain Apart :=
  List.isChain_cons_cons.mpr ⟨apart_of_isSolid (Or.inr hu), h⟩

end Token

theorem Decimal.tokens_apart (n : Int) {t : Token} {rest : List Token} (ht : t.isSolid = true)
    (h : (t :: rest).IsChain Token.Apart) : (tokens n ++ t :: rest).IsChain Token.Apart := by
  unfold tokens
  split
  · exact Token.apart_cons rfl (Token.apart_cons_cons ht h)
  · exact Token.apart_cons_cons ht h

theorem Head.tokens_apart (g : Head) {rest : List Token} (h : rest.IsChain Token.Apart) :
    (g.tokens ++ .leftParen :: rest).IsChain Token.Apart := by
  obtain ⟨sign, magnitude, _, _⟩ := g
  have paren : (Token.leftParen :: rest).IsChain Token.Apart := Token.apart_cons rfl h
  have count : ∀ n, (Decimal.tokens n ++ Token.leftParen :: rest).IsChain Token.Apart := fun n =>
    Decimal.tokens_apart n rfl paren
  rcases sign with _ | ⟨_ | _, _⟩ <;> rcases magnitude with _ | ⟨n, _⟩
  · exact paren
  · exact count n
  · exact Token.apart_cons rfl paren
  · exact Token.apart_cons rfl (count n)
  · exact Token.apart_cons rfl paren
  · exact Token.apart_cons rfl (count n)

namespace Row

/-- No row begins with a blank. -/
theorem head?_tokens_ne_blank {row : Row} : row.tokens.head? ≠ some .blank := by
  cases row with
  | nil => simp [tokens]
  | cluster c join rest =>
    rw [tokens, Decimal.tokens]
    split <;> simp
  | group h body join rest =>
    obtain ⟨sign, magnitude, _, _⟩ := h
    rcases sign with _ | ⟨_ | _, _⟩ <;> rcases magnitude with _ | ⟨n, _⟩ <;>
      simp only [tokens, Head.tokens, Decimal.tokens, Sign.token] <;> (try split) <;> simp

theorem tokens_ne_nil {row : Row} (h : row.isEmpty = false) : row.tokens ≠ [] := by
  cases row with
  | nil => cases h
  | cluster | group => simp [tokens]

theorem joinTokens_apart (join : Option (Located Join)) {row : Row} {rest : List Token}
    (h : (row.tokens ++ rest).IsChain Token.Apart) :
    (joinTokens join row ++ (row.tokens ++ rest)).IsChain Token.Apart := by
  unfold joinTokens
  split
  · exact h
  · next hne =>
    rcases join with _ | ⟨_ | _, _⟩
    · exact h
    · -- A blank join stands in front of a term, which begins with no blank.
      refine List.isChain_cons.mpr ⟨fun t ht => ?_, h⟩
      replace ht : t ∈ (row.tokens ++ rest).head? := ht
      rw [List.head?_append_of_ne_nil _ (tokens_ne_nil (by simpa using hne))] at ht
      cases t with
      | blank => exact absurd ht head?_tokens_ne_blank
      | integer | symbol | plus | minus | leftParen | rightParen => trivial
    · exact Token.apart_cons rfl h

theorem tokens_append_apart (row : Row) :
    ∀ {rest : List Token}, rest.IsChain Token.Apart → (row.tokens ++ rest).IsChain Token.Apart := by
  induction row with
  | nil => exact id
  | cluster c join row ih =>
    intro rest h
    have tail := Token.apart_cons (t := .symbol c.symbol) rfl (joinTokens_apart join (ih h))
    simpa [tokens] using Decimal.tokens_apart c.count rfl tail
  | group head body join row ihb ih =>
    intro rest h
    have tail := Token.apart_cons (t := .rightParen) rfl (joinTokens_apart join (ih h))
    simpa [tokens] using head.tokens_apart (ihb tail)

theorem tokens_apart (row : Row) : row.tokens.IsChain Token.Apart := by
  simpa using row.tokens_append_apart .nil

end Row

/-! ### They are in range -/

theorem Decimal.tokens_inRange {n : Int} (hn : n.natAbs ≤ Word.greatestSigned) : ∀ t ∈ tokens n, t.InRange := by
  intro t ht
  unfold tokens at ht
  split at ht <;> simp only [List.mem_cons, List.not_mem_nil, or_false] at ht
  · rcases ht with rfl | rfl
    · trivial
    · exact hn
  · exact ht ▸ hn

theorem Head.tokens_inRange {h : Head} (fits : h.Fits) : ∀ t ∈ h.tokens, t.InRange := by
  obtain ⟨sign, magnitude, _, _⟩ := h
  intro t ht
  rcases List.mem_append.mp ht with ht | ht
  · rcases sign with _ | ⟨_ | _, _⟩ <;> simp at ht <;> exact ht ▸ trivial
  · cases magnitude with
    | none => cases ht
    | some m => exact Decimal.tokens_inRange fits.1 t ht

namespace Row

theorem joinTokens_inRange (join : Option (Located Join)) (rest : Row) : ∀ t ∈ joinTokens join rest, t.InRange := by
  intro t ht
  unfold joinTokens at ht
  split at ht
  · cases ht
  · rcases join with _ | ⟨_ | _, _⟩ <;> simp [Join.token] at ht <;> exact ht ▸ trivial

theorem Shaped.tokens_inRange {row : Row} (h : row.Shaped) : ∀ t ∈ row.tokens, t.InRange := by
  induction row with
  | nil =>
    intro t ht
    cases ht
  | cluster c join rest ih =>
    obtain ⟨hc, -, hrest⟩ := h
    simp only [tokens, List.forall_mem_append, List.forall_mem_cons]
    exact ⟨Decimal.tokens_inRange hc, trivial, joinTokens_inRange join rest, ih hrest⟩
  | group head body join rest ihb ih =>
    obtain ⟨hh, hbody, -, hrest⟩ := h
    simp only [tokens, List.forall_mem_append, List.forall_mem_cons]
    exact ⟨head.tokens_inRange hh, trivial, ihb hbody, trivial, joinTokens_inRange join rest, ih hrest⟩

/-! ### Rows of the same meaning -/

theorem nesting_forget (row : Row) : row.forget.nesting = row.nesting := by
  induction row with
  | nil => rfl
  | cluster c join rest ih => exact ih
  | group h body join rest ihb ih => simp only [forget, nesting, ihb, ih]

theorem beginsPlus_forget (row : Row) : row.forget.beginsPlus = row.beginsPlus := by
  cases row with
  | nil | cluster => rfl
  | group h body join rest =>
    obtain ⟨_ | _, _, _, _⟩ := h <;> rfl

theorem beginsBare_forget (row : Row) : row.forget.beginsBare = row.beginsBare := by
  cases row with
  | nil | cluster => rfl
  | group h body join rest =>
    obtain ⟨_ | _, _ | _, _, _⟩ := h <;> rfl

theorem forget_map_eq {α : Type} {x y : Option (Located α)} (h : x.map Located.value = y.map Located.value) :
    x.map Located.forget = y.map Located.forget := by
  rcases x with _ | ⟨v, _⟩ <;> rcases y with _ | ⟨w, _⟩ <;> simp_all [Located.forget]

/-! ### They write the row -/

theorem exists_of_map_value {ts : List (Located Token)} {t : Token} {rest : List Token}
    (h : ts.map Located.value = t :: rest) : ∃ p us, ts = ⟨t, p⟩ :: us ∧ us.map Located.value = rest := by
  obtain ⟨⟨_, p⟩, us, rfl, rfl, hus⟩ := List.map_eq_cons_iff.mp h
  exact ⟨p, us, rfl, hus⟩

theorem exists_of_map_value_singleton {ts : List (Located Token)} {t : Token} (h : ts.map Located.value = [t]) :
    ∃ p, ts = [⟨t, p⟩] := by
  obtain ⟨p, us, rfl, hus⟩ := exists_of_map_value h
  obtain rfl := List.map_eq_nil_iff.mp hus
  exact ⟨p, rfl⟩

/-- The tokens of an integer are a number, behind a minus where the integer is negative. -/
theorem exists_of_map_value_decimal {ts : List (Located Token)} {n : Int}
    (h : ts.map Located.value = Decimal.tokens n) :
    (∃ k : Nat, ∃ s, 0 ≤ n ∧ n = k ∧ ts = [⟨.integer k, s⟩]) ∨
      ∃ k : Nat, ∃ m s, 1 ≤ k ∧ n = -k ∧ ts = [⟨.minus, m⟩, ⟨.integer k, s⟩] := by
  unfold Decimal.tokens at h
  split at h
  · next hneg =>
    obtain ⟨m, us, rfl, hus⟩ := exists_of_map_value h
    obtain ⟨s, rfl⟩ := exists_of_map_value_singleton hus
    exact Or.inr ⟨n.natAbs, m, s, by omega, by omega, rfl⟩
  · next hpos =>
    obtain ⟨s, rfl⟩ := exists_of_map_value_singleton h
    exact Or.inl ⟨n.natAbs, s, by omega, by omega, rfl⟩

theorem countLead_of_tokens {lead : List (Located Token)} {count : Int}
    (h : lead.map Located.value = Decimal.tokens count) : CountLead lead count := by
  rcases exists_of_map_value_decimal h with ⟨k, s, -, rfl, rfl⟩ | ⟨k, m, s, hk, rfl, rfl⟩
  · exact .plain k s
  · exact .negated k m s hk

/-- What the tokens in front of a parenthesis make is what the head shows. -/
theorem groupLead_of_tokens {lead : List (Located Token)} {head : Head} (fits : head.Fits)
    (h : lead.map Located.value = head.tokens) :
    ∃ sign magnitude, GroupLead lead sign magnitude ∧ sign.map Located.value = head.sign.map Located.value ∧
      magnitude.map Located.value = head.magnitude.map Located.value := by
  obtain ⟨sign, magnitude, _, _⟩ := head
  rcases sign with _ | ⟨g, _⟩ <;> rcases magnitude with _ | ⟨n, _⟩ <;>
    simp only [Head.tokens, List.nil_append, List.append_nil, List.singleton_append] at h
  · obtain rfl := List.map_eq_nil_iff.mp h
    exact ⟨_, _, .bare, rfl, rfl⟩
  · -- A magnitude without a sign is not negative, so that no minus stands in front.
    have hn : 0 ≤ n := fits.2 rfl
    rcases exists_of_map_value_decimal h with ⟨k, s, -, rfl, rfl⟩ | ⟨k, m, s, hk, rfl, rfl⟩
    · exact ⟨_, _, .magnitude k s, rfl, rfl⟩
    · omega
  · obtain ⟨p, rfl⟩ := exists_of_map_value_singleton h
    exact ⟨_, _, .sign g p, rfl, rfl⟩
  · obtain ⟨p, us, rfl, hus⟩ := exists_of_map_value h
    rcases exists_of_map_value_decimal hus with ⟨k, s, -, rfl, rfl⟩ | ⟨k, m, s, -, rfl, rfl⟩
    · exact ⟨_, _, .signed g k p s, rfl, rfl⟩
    · exact ⟨_, _, .negated g k p m s, rfl, rfl⟩

/-- A join that fits is written by a boundary in front of the tokens of a row alike. -/
theorem tie_of_tokens {closed : Bool} {join : Option (Located Join)} {rest rest' : Row}
    {gap next : List (Located Token)} (fits : JoinFits closed join rest)
    (hgap : gap.map Located.value = joinTokens join rest) (hnext : next.map Located.value = rest.tokens)
    (terms : Terms next rest') (alike : rest'.Alike rest) :
    ∃ join', Tie closed gap join' next ∧ join'.map Located.value = join.map Located.value := by
  unfold JoinFits at fits
  unfold joinTokens at hgap
  split at fits
  · next hempty =>
    rw [if_pos hempty] at hgap
    obtain rfl := List.map_eq_nil_iff.mp hgap
    cases rest with
    | nil =>
      obtain rfl := List.map_eq_nil_iff.mp hnext
      exact ⟨none, .last, by rw [fits]⟩
    | cluster | group => cases hempty
  · next hmore =>
    rw [if_neg hmore] at hgap
    obtain ⟨w, ws, hw⟩ := List.exists_cons_of_ne_nil (tokens_ne_nil (by simpa using hmore))
    rw [hw] at hnext
    obtain ⟨p, us, rfl, -⟩ := exists_of_map_value hnext
    obtain ⟨-, hplus, hbare⟩ := terms.begins
    rw [← beginsPlus_forget, alike, beginsPlus_forget] at hplus
    rw [← beginsBare_forget, alike, beginsBare_forget] at hbare
    -- The token of a join that is there.
    have written : ∀ {j : Join}, join.map Located.value = some j → ∃ q, gap = [⟨j.token, q⟩] := fun hj => by
      obtain ⟨j, rfl, rfl⟩ := Option.map_eq_some_iff.mp hj
      exact exists_of_map_value_singleton hgap
    rcases fits with hj | ⟨hno, hj⟩
    · obtain ⟨q, rfl⟩ := written hj
      exact ⟨_, .next (.plus q .none .none), hj.symm⟩
    · have noPlus : w ≠ .plus := by simpa [hno] using hplus
      split at hj
      · next hparen =>
        obtain rfl := Option.map_eq_none_iff.mp hj
        obtain rfl := List.map_eq_nil_iff.mp hgap
        refine ⟨none, .next (.touch ?_ noPlus .none), rfl⟩
        rcases Bool.or_eq_true_iff.mp hparen with hc | hb
        · exact Or.inl hc
        · exact Or.inr (hbare.mp hb)
      · next hparen =>
        obtain ⟨hc, hb⟩ := Bool.or_eq_false_iff.mp (Bool.eq_false_of_not_eq_true hparen)
        obtain ⟨q, rfl⟩ := written hj
        have noParen : w ≠ .leftParen := by simpa [hb] using hbare
        exact ⟨_, .next (.space q hc noPlus noParen), hj.symm⟩

theorem Shaped.terms_of_tokens {row : Row} (h : row.Shaped) :
    ∀ {ts : List (Located Token)}, ts.map Located.value = row.tokens → ∃ row', Terms ts row' ∧ row'.Alike row := by
  induction row with
  | nil =>
    intro ts hts
    obtain rfl := List.map_eq_nil_iff.mp hts
    exact ⟨.nil, .nil, rfl⟩
  | cluster c join rest ih =>
    intro ts hts
    obtain ⟨-, hjoin, hrest⟩ := h
    obtain ⟨lead, us, rfl, hlead, hus⟩ := List.map_eq_append_iff.mp hts
    obtain ⟨s, us, rfl, hbehind⟩ := exists_of_map_value hus
    obtain ⟨gap, next, rfl, hgap, hnext⟩ := List.map_eq_append_iff.mp hbehind
    obtain ⟨rest', terms, alike⟩ := ih hrest hnext
    obtain ⟨join', tie, hvalue⟩ := tie_of_tokens hjoin hgap hnext terms alike
    refine ⟨_, .cluster c.symbol s (countLead_of_tokens hlead) tie terms, ?_⟩
    have alike : rest'.forget = rest.forget := alike
    simp only [Alike, forget, forget_map_eq hvalue, alike]
  | group head body join rest ihb ih =>
    intro ts hts
    obtain ⟨hhead, hbody, hjoin, hrest⟩ := h
    obtain ⟨lead, us, rfl, hlead, hus⟩ := List.map_eq_append_iff.mp hts
    obtain ⟨o, us, rfl, hinside⟩ := exists_of_map_value hus
    obtain ⟨inner, us, rfl, hinner, hclose⟩ := List.map_eq_append_iff.mp hinside
    obtain ⟨c, us, rfl, hbehind⟩ := exists_of_map_value hclose
    obtain ⟨gap, next, rfl, hgap, hnext⟩ := List.map_eq_append_iff.mp hbehind
    obtain ⟨sign, magnitude, leads, hsign, hmagnitude⟩ := groupLead_of_tokens hhead hlead
    obtain ⟨body', content, alikeb⟩ := ihb hbody hinner
    obtain ⟨rest', terms, alike⟩ := ih hrest hnext
    obtain ⟨join', tie, hvalue⟩ := tie_of_tokens hjoin hgap hnext terms alike
    have whole := Terms.group o c leads .none content .none tie terms
    refine ⟨_, by simpa using whole, ?_⟩
    have alike : rest'.forget = rest.forget := alike
    have alikeb : body'.forget = body.forget := alikeb
    simp only [Alike, forget, forget_map_eq hsign, forget_map_eq hmagnitude, forget_map_eq hvalue, alike, alikeb]

/-! ### The round trip -/

/-- Tokens that are those of a well-formed row, with or without a blank behind, are read as that row. -/
theorem WellFormed.ofTokens_tokens {limit : Nat} {row : Row} (h : row.WellFormed limit)
    {ts b : List (Located Token)} (hts : ts.map Located.value = row.tokens) (hb : Gap b) :
    ∃ row', ofTokens limit (ts ++ b) = .ok row' ∧ row'.Alike row := by
  obtain ⟨row', terms, alike⟩ := h.shaped.terms_of_tokens hts
  have bounded : Bounded (ts ++ b) := by
    intro t ht
    rcases List.mem_append.mp ht with ht | ht
    · exact h.shaped.tokens_inRange t.value (hts ▸ List.mem_map_of_mem ht)
    · cases hb with
      | none => cases ht
      | blank s => rw [List.mem_singleton.mp ht]; trivial
  have fits : row'.nesting ≤ limit := by
    have same : row'.nesting = row.nesting := by rw [← nesting_forget, alike, nesting_forget]
    exact same ▸ h.nesting
  have derives : Derives (ts ++ b) row' := ⟨[], ts, b, rfl, .none, terms, hb⟩
  exact ⟨row', ofTokens_of_derives bounded derives fits, alike⟩

/-- The canonical text of a well-formed row is read as that row. -/
theorem WellFormed.ofLine_text {limit : Nat} {row : Row} (h : row.WellFormed limit) :
    ∃ row', ofLine limit row.text = .ok row' ∧ row'.Alike row := by
  have lexed : Token.ofLine row.text = .ok (Token.place 0 row.tokens) := by
    rw [Token.ofLine, text, String.toList_ofList, ← flatMap_tokens,
      Token.ofChars_flatMap_chars row.tokens_apart h.shaped.tokens_inRange]
    rfl
  obtain ⟨row', hread, alike⟩ := h.ofTokens_tokens (Token.map_value_place 0 row.tokens) .none
  rw [List.append_nil] at hread
  exact ⟨row', ofLine_eq_ok_iff.mpr ⟨_, lexed, hread⟩, alike⟩

/-- The rows that are read are well-formed, and every well-formed row is read off its canonical text. -/
theorem wellFormed_of_ofLine_and_ofLine_text (limit : Nat) :
    (∀ line row, ofLine limit line = .ok row → row.WellFormed limit) ∧
      ∀ row : Row, row.WellFormed limit → ∃ row', ofLine limit row.text = .ok row' ∧ row'.Alike row := by
  refine ⟨fun line row h => ?_, fun row h => h.ofLine_text⟩
  obtain ⟨ts, hts, hrow⟩ := ofLine_eq_ok_iff.mp h
  exact wellFormed_of_ofTokens (Token.admissible_of_ofChars (Token.ofChars_of_ofLine hts)) hrow

/-- A plus that ties two terms in front of one that is a sign. -/
theorem ofLine_text_plus_plus :
    let row : Row := .cluster ⟨-3, ⟨'x', by decide +kernel⟩, default⟩ (some ⟨.plus, default⟩)
      (.group ⟨some ⟨.plus, default⟩, none, default, default⟩ .nil none .nil)
    row.text = "-3x++()" ∧ ∃ row', ofLine 1 row.text = .ok row' ∧ row'.Alike row := by
  intro row
  have shaped : row.Shaped := ⟨by decide, Or.inl rfl, trivial, trivial, rfl, trivial⟩
  exact ⟨by decide, (wellFormed_of_ofLine_and_ofLine_text 1).2 row ⟨shaped, by decide⟩⟩

end Row

end Dotwork
