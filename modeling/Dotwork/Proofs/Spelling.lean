import Dotwork.Proofs.Script
import Dotwork.Proofs.Shape

/-!
# The spelling of tokens

A line is the texts of its tokens one behind another. Tokens that write a row are spelled by a text of the grammar,
but for the zeros that they negate behind the sign of a group.
-/

namespace Dotwork

namespace Spelling
open Script

/-! ### The texts of tokens -/

/-- A text that a token is read from. -/
inductive TextOf : Token → List Char → Prop
  | zero : TextOf (.integer 0) ['0']
  | natural {n : Nat} {w : List Char} (pos : 0 < n) (natural : Natural w) : TextOf (.integer n) w
  | symbol (x : Symbol) : TextOf (.symbol x) [x.glyph]
  | plus : TextOf .plus ['+']
  | minus : TextOf .minus ['-']
  | leftParen : TextOf .leftParen ['(']
  | rightParen : TextOf .rightParen [')']
  | blank {w : List Char} (some : w ≠ []) (blanks : Blanks w) : TextOf .blank w

/-- A text that tokens are read from one behind another. -/
inductive TextsOf : List (Located Token) → List Char → Prop
  | nil : TextsOf [] []
  | cons {t : Located Token} {ts : List (Located Token)} {w v : List Char} (text : TextOf t.value w)
      (texts : TextsOf ts v) :
    TextsOf (t :: ts) (w ++ v)

theorem TextsOf.exists_of_append {ts us : List (Located Token)} {w : List Char} (h : TextsOf (ts ++ us) w) :
    ∃ v v', w = v ++ v' ∧ TextsOf ts v ∧ TextsOf us v' := by
  induction ts generalizing w with
  | nil => exact ⟨[], w, rfl, .nil, h⟩
  | cons t ts ih =>
    obtain _ | ⟨text, texts⟩ := h
    obtain ⟨v, v', rfl, hv, hv'⟩ := ih texts
    exact ⟨_, v', (List.append_assoc ..).symm, .cons text hv, hv'⟩

theorem TextsOf.exists_of_cons {t : Located Token} {ts : List (Located Token)} {w : List Char}
    (h : TextsOf (t :: ts) w) : ∃ v v', w = v ++ v' ∧ TextOf t.value v ∧ TextsOf ts v' := by
  obtain _ | ⟨text, texts⟩ := h
  exact ⟨_, _, rfl, text, texts⟩

theorem TextsOf.exists_of_singleton {t : Located Token} {w : List Char} (h : TextsOf [t] w) : TextOf t.value w := by
  obtain ⟨v, _, rfl, hv, ⟨⟩⟩ := h.exists_of_cons
  rwa [List.append_nil]

/-- The value of digits is at least what it begins with. -/
theorem le_ofDigitChars (run : List Char) (n : Nat) : n ≤ Nat.ofDigitChars 10 run n := by
  induction run generalizing n with
  | nil => exact Nat.le_refl n
  | cons c run ih =>
    rw [Nat.ofDigitChars_cons]
    exact Nat.le_trans (by omega) (ih _)

theorem ofDigitChars_pos {w : List Char} (h : Natural w) : 0 < Nat.ofDigitChars 10 w 0 := by
  cases h with
  | @digits d ds nonzero digits =>
    have hd : d.isDigit = true := Glyph.kind_eq_digit_iff.mp (digits d List.mem_cons_self)
    simp only [Char.isDigit, Bool.and_eq_true, decide_eq_true_eq] at hd
    have hge : '0'.toNat ≤ d.toNat := hd.1
    have hne : d.toNat ≠ '0'.toNat := fun h => nonzero (Char.toNat_inj.mp h)
    rw [Nat.ofDigitChars_cons]
    exact Nat.lt_of_lt_of_le (by omega) (le_ofDigitChars ds _)

theorem textOf_of_integer {run : List Char} {t : Token} (uniform : (Lexeme.digits run).Uniform)
    (h : Lexeme.integer run = .ok t) : TextOf t run := by
  obtain ⟨hne, hdigits⟩ := uniform
  obtain ⟨d, ds, rfl⟩ := List.exists_cons_of_ne_nil hne
  unfold Lexeme.integer at h
  split at h
  · cases h
  · next hzero =>
    split at h
    · cases h
      by_cases hd : d = '0'
      · -- Behind a zero there is no further digit.
        obtain rfl := hd
        cases ds with
        | nil => exact .zero
        | cons e es => exact absurd ⟨by simp, rfl⟩ hzero
      · have natural := Natural.digits hd hdigits
        exact .natural (ofDigitChars_pos natural) natural
    · cases h

theorem textOf_of_single {c : Char} {t : Token} (h : Lexeme.single c = .ok t) : TextOf t [c] := by
  unfold Lexeme.single at h
  split at h
  · next hc => cases h; exact hc ▸ .plus
  split at h
  · next hc => cases h; exact hc ▸ .minus
  split at h
  · next hc => cases h; exact hc ▸ .leftParen
  split at h
  · next hc => cases h; exact hc ▸ .rightParen
  split at h
  · next s hs =>
    cases h
    exact Symbol.ofGlyph_eq_ok_iff.mp hs ▸ .symbol s
  · cases h

theorem textOf_of_token {l : Lexeme} {t : Token} (uniform : l.Uniform) (h : l.token = .ok t) : TextOf t l.chars := by
  cases l with
  | digits run => exact textOf_of_integer uniform h
  | blanks run =>
    cases h
    exact .blank uniform.1 uniform.2
  | glyph c => exact textOf_of_single h

theorem textsOf_of_readFrom {ls : List (Located Lexeme)} {ts : List (Located Token)}
    (h : List.Forall₂ Token.ReadFrom ls ts) :
    (∀ l ∈ ls, l.value.Uniform) → TextsOf ts (ls.flatMap fun l => l.value.chars) := by
  induction h with
  | nil => exact fun _ => .nil
  | cons hl _ ih =>
    intro uniform
    obtain ⟨hu, hrest⟩ := List.forall_mem_cons.mp uniform
    exact .cons (textOf_of_token hu hl.1) (ih hrest)

/-- A line is the texts of its tokens. -/
theorem textsOf_of_ofChars {line : List Char} {ts : List (Located Token)} (h : Token.ofChars line = .ok ts) :
    TextsOf ts line := by
  have hplaced := Token.map_value_place_lexemes 0 (Lexeme.cut line)
  have uniform : ∀ l ∈ Lexeme.place 0 (Lexeme.cut line), l.value.Uniform := fun l hl =>
    Lexeme.cut_uniform line l.value (hplaced ▸ List.mem_map_of_mem hl)
  have texts := textsOf_of_readFrom (Token.readFrom_of_ofChars h) uniform
  rwa [← List.flatMap_map, hplaced, Lexeme.cut_chars] at texts

/-! ### The texts of the parts of a term -/

theorem TextOf.solid {t : Token} {w : List Char} (h : TextOf t w) (noBlank : t ≠ .blank) :
    w ≠ [] ∧ ∀ c ∈ w, Glyph.kind c ≠ .blank := by
  cases h with
  | zero | plus | minus | leftParen | rightParen =>
    exact ⟨List.cons_ne_nil _ _, List.forall_mem_singleton.mpr (by decide)⟩
  | natural _ natural =>
    cases natural with
    | digits _ digits => exact ⟨List.cons_ne_nil _ _, fun c hc => by simp [digits c hc]⟩
  | symbol x => exact ⟨List.cons_ne_nil _ _, by simp [x.kind_eq]⟩
  | blank => exact absurd rfl noBlank

theorem blanks_of_textOf {w : List Char} (h : TextOf .blank w) : w ≠ [] ∧ Blanks w := by
  cases h with
  | blank some blanks => exact ⟨some, blanks⟩

theorem TextsOf.blanks_of_gap {a : List (Located Token)} {w : List Char} (gap : Row.Gap a) (h : TextsOf a w) :
    Blanks w := by
  cases gap with
  | none =>
    cases h
    exact blanks_nil
  | blank s =>
    exact (blanks_of_textOf h.exists_of_singleton).2

theorem integer_of_textOf {n : Nat} {w : List Char} (h : TextOf (.integer n) w) : Integer w := by
  cases h with
  | zero => exact .zero
  | natural _ natural => exact .natural natural

theorem natural_of_textOf {n : Nat} {w : List Char} (pos : 0 < n) (h : TextOf (.integer n) w) : Natural w := by
  cases h with
  | zero => cases pos
  | natural _ natural => exact natural

theorem textOf_sign {g : Sign} {w : List Char} (h : TextOf g.token w) : w = [g.char] := by
  cases g <;> cases h <;> rfl

theorem integer_of_countLead {lead : List (Located Token)} {count : Int} {w : List Char}
    (counts : Row.CountLead lead count) (h : TextsOf lead w) : Integer w := by
  cases counts with
  | plain n s => exact integer_of_textOf h.exists_of_singleton
  | negated n m s pos =>
    obtain ⟨_, v, rfl, ⟨⟩, hv⟩ := h.exists_of_cons
    exact .negative (natural_of_textOf pos hv.exists_of_singleton)

/-- Where a term begins with a plus, this one is behind no term. -/
def Starts (before : List Char) (ts : List (Located Token)) : Prop :=
  ts.head?.map Located.value = some .plus → behindTerm before = false

theorem Starts.front {before : List Char} {ts us : List (Located Token)} (h : Starts before (ts ++ us)) :
    Starts before ts := by
  intro ht
  obtain ⟨t, hhead, hvalue⟩ := Option.map_eq_some_iff.mp ht
  obtain ⟨tail, rfl⟩ := List.head?_eq_some_iff.mp hhead
  exact h (congrArg some hvalue)

/-- In front of a parenthesis stand a sign and an integer, if any, or a sign with a negated zero. -/
theorem exists_of_groupLead {lead : List (Located Token)} {sign : Option (Located Sign)}
    {magnitude : Option (Located Int)} {w : List Char} (leads : Row.GroupLead lead sign magnitude)
    (h : TextsOf lead w) :
    ∃ (g : Option Sign) (m : List Char), w = (g.map Sign.char).toList ++ m ∧
      (m = [] ∨ Integer m ∨ m = ['-', '0'] ∧ ∀ before, Starts before lead → NegatesZero (before ++ w)) := by
  cases leads with
  | bare =>
    cases h
    exact ⟨none, [], rfl, Or.inl rfl⟩
  | sign g p =>
    obtain rfl := textOf_sign h.exists_of_singleton
    exact ⟨some g, [], rfl, Or.inl rfl⟩
  | magnitude n s => exact ⟨none, w, rfl, Or.inr (Or.inl (integer_of_textOf h.exists_of_singleton))⟩
  | signed g n p s =>
    obtain ⟨_, v, rfl, hg, hv⟩ := h.exists_of_cons
    obtain rfl := textOf_sign hg
    exact ⟨some g, v, rfl, Or.inr (Or.inl (integer_of_textOf hv.exists_of_singleton))⟩
  | negated g n p m s =>
    obtain ⟨_, _, rfl, hg, hrest⟩ := h.exists_of_cons
    obtain rfl := textOf_sign hg
    obtain ⟨_, v, rfl, ⟨⟩, hv⟩ := hrest.exists_of_cons
    refine ⟨some g, '-' :: v, rfl, Or.inr ?_⟩
    obtain _ | ⟨_, natural⟩ := hv.exists_of_singleton
    · refine Or.inr ⟨rfl, fun before starts => ⟨before, g, rfl, ?_⟩⟩
      rintro rfl
      exact starts rfl
    · exact Or.inl (.negative natural)

theorem separator_of_boundary {closed : Bool} {t : Located Token} {gap next : List (Located Token)}
    {join : Option (Located Join)} {left g v : List Char} (boundary : Row.Boundary closed t.value gap join)
    (paren : closed = true → left.getLast? = some ')') (hg : TextsOf gap g) (hv : TextsOf (t :: next) v) :
    Separator left v g := by
  cases boundary with
  | plus p before behind =>
    obtain ⟨a, _, rfl, ha, hrest⟩ := hg.exists_of_append
    obtain ⟨_, b, rfl, ⟨⟩, hb⟩ := hrest.exists_of_cons
    exact .plus (ha.blanks_of_gap before) (hb.blanks_of_gap behind)
  | space s =>
    obtain ⟨some, blanks⟩ := blanks_of_textOf hg.exists_of_singleton
    exact .space some blanks
  | touch hparen _ gap =>
    cases gap with
    | none =>
      cases hg
      refine .touch (hparen.imp paren fun ht => ?_)
      obtain ⟨_, v, rfl, htext, -⟩ := hv.exists_of_cons
      rw [ht] at htext
      cases htext
      rfl
    | blank s =>
      obtain ⟨some, blanks⟩ := blanks_of_textOf hg.exists_of_singleton
      exact .space some blanks

theorem starts_of_boundary {closed : Bool} {t : Located Token} {gap next : List (Located Token)}
    {join : Option (Located Join)} {before g : List Char} (boundary : Row.Boundary closed t.value gap join)
    (hg : TextsOf gap g) : Starts (before ++ g) (t :: next) := by
  intro ht
  replace ht : t.value = .plus := Option.some.inj ht
  cases boundary with
  | plus p _ behind =>
    obtain ⟨a, _, rfl, -, hrest⟩ := hg.exists_of_append
    obtain ⟨_, b, rfl, ⟨⟩, hb⟩ := hrest.exists_of_cons
    have hplus := behindTerm_concat_blanks (before ++ a) (show Glyph.kind '+' ≠ .blank by decide)
      (hb.blanks_of_gap behind)
    rw [← List.append_assoc, ← List.append_assoc, hplus]
    decide
  | space _ _ noPlus | touch _ noPlus => exact absurd ht noPlus

/-! ### What is read keeps to the grammar -/

section Reading
variable {Magnitude : List Char → Prop}

theorem derives_of_tie {closed : Bool} {gap next : List (Located Token)} {join : Option (Located Join)}
    {left g v : List Char} (before : List Char) (term : Derives Magnitude .term left)
    (tie : Row.Tie closed gap join next) (paren : closed = true → left.getLast? = some ')') (hg : TextsOf gap g)
    (hv : TextsOf next v) (terms : next ≠ [] → Starts (before ++ g) next → Derives Magnitude .terms v) :
    Derives Magnitude .terms (left ++ g ++ v) := by
  cases tie with
  | last =>
    cases hg
    cases hv
    simpa using Derives.last term
  | next boundary =>
    have separator := separator_of_boundary boundary paren hg hv
    exact .next term separator (terms (List.cons_ne_nil _ _) (starts_of_boundary boundary hg))

/-- A sequence of terms between blanks, or none. -/
theorem derives_sequence {a ts b : List (Located Token)} {w v x : List Char} (before : Row.Gap a)
    (behind : Row.Gap b) (ha : TextsOf a w) (hts : TextsOf ts v) (hb : TextsOf b x)
    (terms : ts ≠ [] → Derives Magnitude .terms v) : Derives Magnitude .sequence (w ++ v ++ x) := by
  have front := ha.blanks_of_gap before
  have back := hb.blanks_of_gap behind
  cases ts with
  | nil =>
    cases hts
    simpa using Derives.empty front back
  | cons t ts => exact .sequence front (terms (List.cons_ne_nil _ _)) back

/-- The text of terms is derived, with zeros negated where the grammar has these or else where there are none. -/
theorem derives_of_terms (integers : ∀ m, Integer m → Magnitude m) {ts : List (Located Token)} {row : Row}
    (h : Row.Terms ts row) :
    ∀ {before w : List Char}, TextsOf ts w → Starts before ts → Magnitude ['-', '0'] ∨ Clean before w →
      ts ≠ [] → Derives Magnitude .terms w := by
  -- The text in front grows with each term; a boundary with a plus leaves it behind no term.
  induction h with
  | nil => exact fun _ _ _ hne => absurd rfl hne
  | cluster x s counts tie terms ih =>
    intro before w hw _ zeros _
    obtain ⟨l, _, rfl, hl, hsymbol⟩ := hw.exists_of_append
    obtain ⟨_, _, rfl, ⟨⟩, hbehind⟩ := hsymbol.exists_of_cons
    obtain ⟨g, v, rfl, hg, hv⟩ := hbehind.exists_of_append
    have term : Derives Magnitude .term (l ++ [x.glyph]) := .cluster (integer_of_countLead counts hl) x.kind_eq
    have whole := derives_of_tie (before ++ l ++ [x.glyph]) term tie (by simp) hg hv fun hne starts =>
      ih hv starts (zeros.imp_right fun clean => clean.behind.behind.behind) hne
    simpa using whole
  | group o c leads beforeGap content behindGap tie terms ihb ih =>
    intro before w hw starts zeros _
    obtain ⟨_, _, rfl, hopen, hclose⟩ := hw.exists_of_append
    obtain ⟨l, _, rfl, hl, hparen⟩ := hopen.exists_of_append
    obtain ⟨_, _, rfl, ⟨⟩, hinside⟩ := hparen.exists_of_cons
    obtain ⟨_, wb, rfl, hai, hb⟩ := hinside.exists_of_append
    obtain ⟨wa, wi, rfl, ha, hi⟩ := hai.exists_of_append
    obtain ⟨_, _, rfl, ⟨⟩, hbehind⟩ := hclose.exists_of_cons
    obtain ⟨g, v, rfl, hg, hv⟩ := hbehind.exists_of_append
    have body : Derives Magnitude .sequence (wa ++ wi ++ wb) := by
      refine derives_sequence beforeGap behindGap ha hi hb fun hne => ?_
      refine ihb hi (fun _ => ?_) (zeros.imp_right fun clean => clean.front.behind.behind.front.behind) hne
      rw [behindTerm_concat_blanks _ (by decide) (ha.blanks_of_gap beforeGap)]
      decide
    have term : Derives Magnitude .term (l ++ '(' :: (wa ++ wi ++ wb) ++ [')']) := by
      obtain ⟨sign, m, rfl, hm⟩ := exists_of_groupLead leads hl
      refine .group sign ?_ body
      rcases hm with rfl | integer | ⟨rfl, negates⟩
      · exact Or.inl rfl
      · exact Or.inr (integers m integer)
      · exact Or.inr (zeros.resolve_right fun clean => clean _ _ (by simp; rfl) (negates before starts.front.front))
    have ends : (l ++ '(' :: (wa ++ wi ++ wb) ++ [')']).getLast? = some ')' := List.getLast?_concat ..
    have whole := derives_of_tie (before ++ (l ++ (['('] ++ (wa ++ wi ++ wb))) ++ [')']) term tie (fun _ => ends) hg hv
      fun hne starts => ih hv starts (zeros.imp_right fun clean => clean.behind.behind.behind) hne
    simpa using whole

end Reading

end Spelling

/-! ### Lines that are read -/

namespace Row
open Script Spelling

theorem Derives.spelled {Magnitude : List Char → Prop} (integers : ∀ m, Integer m → Magnitude m)
    {ts : List (Located Token)} {row : Row} {w : List Char} (h : Derives ts row) (hw : TextsOf ts w)
    (zeros : Magnitude ['-', '0'] ∨ Clean [] w) : Script.Derives Magnitude .sequence w := by
  obtain ⟨a, ws, b, rfl, ha, terms, hb⟩ := h
  obtain ⟨_, wb, rfl, hfront, hback⟩ := hw.exists_of_append
  obtain ⟨wa, wi, rfl, hblank, hinner⟩ := hfront.exists_of_append
  refine derives_sequence ha hb hblank hinner hback fun hne => ?_
  refine derives_of_terms integers terms hinner (fun _ => ?_) (zeros.imp_right fun clean => clean.front.behind) hne
  rw [behindTerm_append_blanks [] (hblank.blanks_of_gap ha)]
  rfl

/-- A line that is read keeps to the grammar with negated zeros, and to the grammar with integers for magnitudes if
    and only if it negates no zero. -/
theorem spelled_of_ofLine {limit : Nat} {line : String} {row : Row} (h : ofLine limit line = .ok row) :
    Script.Derives SignedInteger .sequence line.toList ∧
      (Script.Derives Integer .sequence line.toList ↔
        ∀ before rest, line.toList = before ++ '(' :: rest → ¬NegatesZero before) := by
  obtain ⟨ts, hts, hrow⟩ := ofLine_eq_ok_iff.mp h
  have hchars := Token.ofChars_of_ofLine hts
  have derives := derives_of_ofTokens (Token.admissible_of_ofChars hchars).spaced hrow
  have texts := textsOf_of_ofChars hchars
  refine ⟨derives.spelled (fun _ => .integer) texts (Or.inl .negatedZero), fun spelled => ?_, fun clean => ?_⟩
  · exact spelled.clean fresh_nil
  · exact derives.spelled (fun _ integer => integer) texts (Or.inr clean)

/-- A plus that ties a zero with a minus in front. -/
theorem spelled_of_negative_zero :
    ∃ row, ofLine 1 "1x+-0()" = .ok row ∧ Script.Derives SignedInteger .sequence "1x+-0()".toList ∧
      (Script.Derives Integer .sequence "1x+-0()".toList ↔
        ∀ before rest, "1x+-0()".toList = before ++ '(' :: rest → ¬NegatesZero before) := by
  have accepted : (ofLine 1 "1x+-0()").toOption.isSome = true := by decide +kernel
  cases h : ofLine 1 "1x+-0()" with
  | error report =>
    rw [h] at accepted
    cases accepted
  | ok row => exact ⟨row, rfl, spelled_of_ofLine h⟩

/-- A group whose sign stands in front of a negated zero is read, and no integer is its magnitude. -/
theorem ofLine_minus_minus_zero :
    (∃ row, ofLine 1 "--0()" = .ok row) ∧ ¬Script.Derives Integer .sequence "--0()".toList := by
  constructor
  · have accepted : (ofLine 1 "--0()").toOption.isSome = true := by decide +kernel
    obtain ⟨row, hrow⟩ := Option.isSome_iff_exists.mp accepted
    exact ⟨row, by cases h : ofLine 1 "--0()" <;> simp_all [Except.toOption]⟩
  · intro spelled
    exact spelled.clean fresh_nil ['-', '-', '0'] [')'] rfl ⟨[], .minus, rfl, fun h => by cases h⟩

end Row

end Dotwork
