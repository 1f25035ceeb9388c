import Dotwork.Proofs.Canonical
import Dotwork.Proofs.Segments
import Dotwork.Proofs.Spelling

/-!
# The canonical line as an edit of the line

A line becomes its canonical line by three edits of its segments, each told by the glyphs around the segment: a run of
blanks goes, but for one space between a symbol and the number or the minus behind it, and the minus goes that stands
between the sign of a group and a zero. All other segments stay as they are and where they are.
-/

namespace Dotwork

open Script Spelling

namespace Editing

/-! ### The edits -/

/-- A symbol in front and a digit or a minus behind, which only a blank can part. -/
def separates (before behind : List Char) : Bool :=
  before.getLast?.any (Glyph.kind · == .symbol) && behind.head?.any fun c => Glyph.kind c == .digit || c == '-'

/-- The sign of a group in front: a minus, or a plus that is behind no term. -/
def endsWithSign (before : List Char) : Bool :=
  before.getLast?.any fun c => c == '-' || c == '+' && !behindTerm before.dropLast

/-- What becomes of a segment between two texts. -/
def editSegment (before w behind : List Char) : List Char :=
  if w.all (Glyph.kind · == .blank) then if separates before behind then [' '] else []
  else if w = ['-'] ∧ endsWithSign before ∧ ['0', '('] <+: behind then []
  else w

/-- What becomes of segments between two texts. -/
def edit : List Char → List (List Char) → List Char → List Char
  | _, [], _ => []
  | before, w :: ws, behind => editSegment before w (ws.flatten ++ behind) ++ edit (before ++ w) ws behind

theorem edit_singleton (before w behind : List Char) : edit before [w] behind = editSegment before w behind := by
  simp [edit]

theorem edit_append (before : List Char) (vs ws : List (List Char)) (behind : List Char) :
    edit before (vs ++ ws) behind =
      edit before vs (ws.flatten ++ behind) ++ edit (before ++ vs.flatten) ws behind := by
  induction vs generalizing before with
  | nil => simp [edit]
  | cons v vs ih => simp [edit, ih]

theorem endsWithSign_iff {before : List Char} : endsWithSign before = true ↔ NegatesZero (before ++ ['-', '0']) := by
  rcases List.eq_nil_or_concat before with rfl | ⟨front, c, rfl⟩
  · refine ⟨nofun, ?_⟩
    rintro ⟨front, g, h, -⟩
    have hlength := congrArg List.length h
    simp at hlength
  · have hsplit : ∀ front' d, front ++ [c] ++ ['-', '0'] = front' ++ [d, '-', '0'] ↔ front = front' ∧ c = d := by
      intro front' d
      rw [List.append_cons front' d, List.append_left_inj, List.append_singleton_inj]
    simp only [NegatesZero, List.concat_eq_append, hsplit, endsWithSign, List.getLast?_concat, Option.any_some,
      List.dropLast_concat, Bool.or_eq_true, Bool.and_eq_true, beq_iff_eq, Bool.not_eq_true']
    constructor
    · rintro (rfl | ⟨rfl, hplus⟩)
      · exact ⟨front, .minus, ⟨rfl, rfl⟩, nofun⟩
      · exact ⟨front, .plus, ⟨rfl, rfl⟩, fun _ => hplus⟩
    · rintro ⟨_, _ | _, ⟨rfl, rfl⟩, hplus⟩
      · exact Or.inr ⟨rfl, hplus rfl⟩
      · exact Or.inl rfl

/-! ### What stays and what goes -/

/-- A text that a token is read from, as it is written where the token is no blank. -/
structure Writes (t : Token) (w : List Char) : Prop where
  text : TextOf t w
  eq_chars : t ≠ .blank → w = t.chars

/-- The texts of tokens, one for each. -/
def Words (ts : List (Located Token)) (ws : List (List Char)) : Prop :=
  List.Forall₂ (fun w t => Writes t.value w) ws ts

theorem digitChar_of_digit {c : Char} (h : Glyph.kind c = .digit) :
    c.toNat - '0'.toNat < 10 ∧ (c.toNat - '0'.toNat).digitChar = c := by
  have hc : c.isDigit = true := Glyph.kind_eq_digit_iff.mp h
  simp only [Char.isDigit, Bool.and_eq_true, decide_eq_true_eq] at hc
  have low : '0'.toNat ≤ c.toNat := hc.1
  have high : c.toNat ≤ '9'.toNat := hc.2
  have hnine : '9'.toNat = '0'.toNat + 9 := by decide
  have hlt : c.toNat - '0'.toNat < 10 := by omega
  refine ⟨hlt, Char.toNat_inj.mp ?_⟩
  rw [Nat.toNat_digitChar_of_lt_ten hlt]
  exact Nat.add_sub_of_le low

/-- The value of digits without a zero in front is written with just these. -/
theorem toDigits_ofDigitChars {w : List Char} (h : Natural w) : Nat.toDigits 10 (Nat.ofDigitChars 10 w 0) = w := by
  obtain @⟨d, ds, nonzero, digits⟩ := h
  induction ds using List.reverseRecOn with
  | nil =>
    obtain ⟨hlt, hd⟩ := digitChar_of_digit (digits d List.mem_cons_self)
    simp only [Nat.ofDigitChars_cons, Nat.ofDigitChars_nil, Nat.mul_zero, Nat.zero_add]
    rw [Nat.toDigits_of_lt_base hlt, hd]
  | append_singleton ds c ih =>
    rw [← List.cons_append, List.forall_mem_append] at digits
    obtain ⟨front, last⟩ := digits
    obtain ⟨hlt, hc⟩ := digitChar_of_digit (last c (List.mem_singleton_self c))
    have pos := ofDigitChars_pos (.digits nonzero front)
    rw [← List.cons_append, Nat.ofDigitChars_append, Nat.ofDigitChars_cons, Nat.ofDigitChars_nil,
      Nat.toDigits_of_base_le (by decide) (by omega), Nat.mul_add_div (by decide), Nat.mul_add_mod,
      Nat.div_eq_of_lt hlt, Nat.mod_eq_of_lt hlt, Nat.add_zero, ih front, hc]

theorem chars_of_integer {run : List Char} {t : Token} (h : Lexeme.integer run = .ok t) (text : TextOf t run) :
    run = t.chars := by
  unfold Lexeme.integer at h
  split at h
  · cases h
  split at h
  · cases h
    generalize hn : Nat.ofDigitChars 10 run 0 = n at text
    cases text with
    | zero => rfl
    | natural _ natural => rw [← hn, Token.chars, toDigits_ofDigitChars natural]
  · cases h

theorem writes_of_token {l : Lexeme} {t : Token} (uniform : l.Uniform) (h : l.token = .ok t) : Writes t l.chars := by
  have text := textOf_of_token uniform h
  refine ⟨text, fun solid => ?_⟩
  cases l with
  | digits run => exact chars_of_integer h text
  | blanks run =>
    cases h
    exact absurd rfl solid
  | glyph c =>
    obtain ⟨noInteger, -⟩ := Token.single_ne h
    simp only [Lexeme.chars] at text
    cases text with
    | zero => exact absurd rfl (noInteger 0)
    | natural => exact absurd rfl (noInteger _)
    | symbol | plus | minus | leftParen | rightParen => rfl
    | blank => exact absurd rfl solid

theorem Words.textsOf {ts : List (Located Token)} {ws : List (List Char)} (h : Words ts ws) :
    TextsOf ts ws.flatten := by
  induction h with
  | nil => exact .nil
  | cons h _ ih => exact .cons h.text ih

theorem Words.exists_of_append {ts us : List (Located Token)} {ws : List (List Char)} (h : Words (ts ++ us) ws) :
    ∃ vs vs', ws = vs ++ vs' ∧ Words ts vs ∧ Words us vs' :=
  ⟨_, _, (List.take_append_drop ts.length ws).symm, List.forall₂_take_append _ _ _ h, List.forall₂_drop_append _ _ _ h⟩

theorem Words.exists_of_cons {t : Located Token} {ts : List (Located Token)} {ws : List (List Char)}
    (h : Words (t :: ts) ws) : ∃ w vs, ws = w :: vs ∧ Writes t.value w ∧ Words ts vs := by
  obtain _ | ⟨hw, hvs⟩ := h
  exact ⟨_, _, rfl, hw, hvs⟩

theorem Words.exists_of_singleton {t : Located Token} {ws : List (List Char)} (h : Words [t] ws) :
    ∃ w, ws = [w] ∧ Writes t.value w := by
  obtain ⟨w, _, rfl, hw, ⟨⟩⟩ := h.exists_of_cons
  exact ⟨w, rfl, hw⟩

/-! ### What becomes of tokens -/

theorem eq_minus_of_chars {t : Token} (h : t.chars = ['-']) : t = .minus := by
  cases t with
  | integer n =>
    have hdigit : ('-').isDigit = true := by
      refine Nat.isDigit_of_mem_toDigits (b := 10) (by decide) (by decide) (?_ : _ ∈ Nat.toDigits 10 n)
      simp [show Nat.toDigits 10 n = ['-'] from h]
    cases hdigit
  | symbol x =>
    have hkind := x.kind_eq
    rw [List.singleton_inj.mp h] at hkind
    cases hkind
  | minus => rfl
  | plus | leftParen | rightParen | blank => cases h

theorem fresh_endsWithSign {before : List Char} (h : Fresh before) : endsWithSign before = false :=
  Bool.eq_false_iff.mpr fun hsign =>
    h.not_negatesZero (some .minus) (Or.inr .zero) (endsWithSign_iff.mp hsign)

section Segment
variable {t : Token} {before w behind : List Char}

theorem Writes.editSegment_solid (h : Writes t w) (solid : t ≠ .blank) :
    editSegment before w behind =
      if t = .minus ∧ endsWithSign before ∧ ['0', '('] <+: behind then [] else t.chars := by
  have noBlanks : ¬w.all (Glyph.kind · == .blank) := by
    obtain ⟨hne, hw⟩ := h.text.solid solid
    obtain ⟨c, hc⟩ := List.exists_mem_of_ne_nil w hne
    exact fun hall => hw c hc (beq_iff_eq.mp (List.all_eq_true.mp hall c hc))
  have minus_iff : w = ['-'] ↔ t = .minus := by
    rw [h.eq_chars solid]
    exact ⟨eq_minus_of_chars, fun ht => ht ▸ rfl⟩
  simp only [editSegment, if_neg noBlanks, minus_iff, ← h.eq_chars solid]

theorem Writes.editSegment_eq (h : Writes t w) (solid : t ≠ .blank) (noMinus : t ≠ .minus) :
    editSegment before w behind = t.chars := by
  rw [h.editSegment_solid solid, if_neg fun goes => noMinus goes.1]

theorem Writes.editSegment_blank (h : Writes .blank w) :
    editSegment before w behind = if separates before behind then [' '] else [] := by
  have blanks : w.all (Glyph.kind · == .blank) := by
    simpa [Blanks] using (blanks_of_textOf h.text).2
  rw [editSegment, if_pos blanks]

theorem Writes.editSegment_sign {g : Sign} (h : Writes g.token w) (fresh : Fresh before) :
    editSegment before w behind = [g.char] := by
  have solid : g.token ≠ .blank := by cases g <;> nofun
  have hchars : g.token.chars = [g.char] := by cases g <;> rfl
  rw [h.editSegment_solid solid, fresh_endsWithSign fresh, hchars]
  simp

end Segment

section Lead
variable {before behind : List Char} {lead : List (Located Token)} {ws : List (List Char)}

theorem edit_integer {n : Nat} {s : Span} (h : Words [⟨.integer n, s⟩] ws) :
    edit before ws behind = Decimal.chars n := by
  obtain ⟨w, rfl, hw⟩ := h.exists_of_singleton
  rw [edit_singleton, hw.editSegment_eq nofun nofun, Decimal.chars_ofNat]
  rfl

theorem edit_negative {n : Nat} {m s : Span} (h : Words [⟨.minus, m⟩, ⟨.integer n, s⟩] ws) (pos : 1 ≤ n) :
    edit before ws behind = Decimal.chars (-n) := by
  obtain ⟨w, _, rfl, hw, hrest⟩ := h.exists_of_cons
  obtain ⟨v, rfl, hv⟩ := hrest.exists_of_singleton
  have noZero : ¬['0', '('] <+: [v].flatten ++ behind := by
    obtain @⟨d, ds, nonzero, -⟩ := natural_of_textOf pos hv.text
    simpa using fun h => absurd h.symm nonzero
  rw [edit, hw.editSegment_solid nofun, if_neg fun goes => noZero goes.2.2, edit_integer hrest,
    Decimal.chars_ofNat, Decimal.chars_neg n pos]
  rfl

theorem edit_countLead {count : Int} (counts : Row.CountLead lead count) (h : Words lead ws) :
    edit before ws behind = Decimal.chars count := by
  cases counts with
  | plain => exact edit_integer h
  | negated _ _ _ pos => exact edit_negative h pos

theorem starts_endsWithSign {g : Sign} {p : Span} (starts : Starts before (⟨g.token, p⟩ :: lead)) :
    endsWithSign (before ++ [g.char]) = true := by
  refine endsWithSign_iff.mpr ⟨before, g, List.append_assoc .., ?_⟩
  rintro rfl
  exact starts rfl

/-- Behind the sign of a group the minus in front of a zero goes. -/
theorem edit_groupLead {sign : Option (Located Sign)} {magnitude : Option (Located Int)} (parens span : Span)
    (leads : Row.GroupLead lead sign magnitude) (h : Words lead ws) (fresh : Fresh before)
    (starts : Starts before lead) :
    edit before ws ('(' :: behind) = Head.chars ⟨sign, magnitude, parens, span⟩ := by
  cases leads with
  | bare =>
    cases h
    rfl
  | sign g p =>
    obtain ⟨w, rfl, hw⟩ := h.exists_of_singleton
    rw [edit_singleton, hw.editSegment_sign fresh]
    rfl
  | magnitude n s => exact edit_integer h
  | signed g n p s =>
    obtain ⟨w, _, rfl, hw, hrest⟩ := h.exists_of_cons
    rw [edit, hw.editSegment_sign fresh, edit_integer hrest]
    rfl
  | negated g n p m s =>
    obtain ⟨w, ws, rfl, hw, hrest⟩ := h.exists_of_cons
    rw [edit, hw.editSegment_sign fresh]
    refine congrArg ([g.char] ++ ·) ?_
    rcases Nat.eq_zero_or_pos n with rfl | pos
    · obtain ⟨_, vs, rfl, hminus, hrest⟩ := hrest.exists_of_cons
      have goes : endsWithSign (before ++ w) = true := by
        rw [textOf_sign hw.text]
        exact starts_endsWithSign starts
      have zero : ['0', '('] <+: vs.flatten ++ '(' :: behind := by
        obtain ⟨v, rfl, hv⟩ := hrest.exists_of_singleton
        obtain rfl : v = ['0'] := hv.eq_chars nofun
        exact ⟨behind, rfl⟩
      rw [edit, hminus.editSegment_solid nofun, if_pos ⟨rfl, goes, zero⟩, edit_integer hrest]
      exact congrArg Decimal.chars (by simp : ((0 : Nat) : Int) = -((0 : Nat) : Int))
    · exact edit_negative hrest pos

end Lead

section Gap
variable {before behind : List Char}

theorem separates_concat {c : Char} : separates (before ++ [c]) behind =
    (Glyph.kind c == .symbol && behind.head?.any fun c => Glyph.kind c == .digit || c == '-') := by
  rw [separates, List.getLast?_concat, Option.any_some]

theorem separates_cons {x : Char} (noDigit : Glyph.kind x ≠ .digit) (noMinus : x ≠ '-') :
    separates before (x :: behind) = false := by
  simp [separates, noDigit, noMinus]

theorem edit_gap {a : List (Located Token)} {ws : List (List Char)} (gap : Row.Gap a) (h : Words a ws)
    (flat : separates before behind = false) : edit before ws behind = [] := by
  cases gap with
  | none =>
    cases h
    rfl
  | blank s =>
    obtain ⟨w, rfl, hw⟩ := h.exists_of_singleton
    rw [edit_singleton, hw.editSegment_blank, flat]
    rfl

/-- A blank between a symbol and a term that begins with a number or a minus separates these. -/
theorem separates_of_term {c : Char} (symbol : Glyph.kind c = .symbol) {t : Token} {w : List Char} (h : Writes t w)
    (first : t.startsTerm = true) (noPlus : t ≠ .plus) (noParen : t ≠ .leftParen) :
    separates (before ++ [c]) (w ++ behind) = true := by
  have head : (w ++ behind).head?.any (fun c => Glyph.kind c == .digit || c == '-') = true := by
    cases t with
    | integer n =>
      cases integer_of_textOf h.text with
      | zero => rfl
      | natural natural =>
        obtain @⟨d, ds, -, digits⟩ := natural
        simp [digits d List.mem_cons_self]
      | negative => rfl
    | minus =>
      rw [h.eq_chars nofun]
      rfl
    | plus => exact absurd rfl noPlus
    | leftParen => exact absurd rfl noParen
    | symbol | rightParen | blank => cases first
  rw [separates_concat, symbol, head]
  rfl

/-- Between two terms a plus stays, and a space where the blanks in front of the next term part it from a symbol. -/
theorem edit_tie {closed : Bool} {c : Char} {gap next : List (Located Token)} {join : Option (Located Join)}
    {rest : Row} {gs vs : List (List Char)} (tie : Row.Tie closed gap join next) (terms : Row.Terms next rest)
    (hg : Words gap gs) (hv : Words next vs) (paren : closed = true → c = ')')
    (symbol : closed = false → Glyph.kind c = .symbol) :
    edit (before ++ [c]) gs (vs.flatten ++ behind) = Row.joinChars join rest := by
  cases tie with
  | last =>
    cases hg
    obtain rfl := terms.eq_nil_iff.mp rfl
    rfl
  | @next _ _ t next boundary =>
    have nonempty : rest.isEmpty = false := by
      cases rest with
      | nil => exact absurd (terms.eq_nil_iff.mpr rfl) (List.cons_ne_nil _ _)
      | cluster | group => rfl
    obtain ⟨w, vs, rfl, hw, -⟩ := hv.exists_of_cons
    simp only [Row.joinChars, nonempty, Bool.false_eq_true, ↓reduceIte]
    cases boundary with
    | @plus a b p ha hb =>
      obtain ⟨as, _, rfl, has, hrest⟩ := hg.exists_of_append
      obtain ⟨_, bs, rfl, hplus, hbs⟩ := hrest.exists_of_cons
      obtain rfl := hplus.eq_chars nofun
      have front : ∀ behind, edit (before ++ [c]) as ('+' :: behind) = [] := fun _ =>
        edit_gap ha has (separates_cons (by decide) (by decide))
      have back : edit (before ++ [c] ++ as.flatten ++ ['+']) bs ((w :: vs).flatten ++ behind) = [] :=
        edit_gap hb hbs separates_concat
      rw [edit_append, edit, hplus.editSegment_eq nofun nofun]
      exact congrArg₂ (· ++ ·) (front _) (congrArg (['+'] ++ ·) back)
    | space s cluster noPlus noParen =>
      obtain ⟨g, rfl, hblank⟩ := hg.exists_of_singleton
      have first : t.value.startsTerm = true := by
        rcases terms.head with ⟨hnil, -⟩ | ⟨u, us, hcons, hu⟩
        · cases hnil
        · exact (List.cons.inj hcons).1 ▸ hu
      rw [edit_singleton, hblank.editSegment_blank, List.flatten_cons, List.append_assoc,
        separates_of_term (symbol cluster) hw first noPlus noParen]
      rfl
    | touch hparen _ gap =>
      refine edit_gap gap hg ?_
      rcases hparen with hclosed | hopen
      · rw [paren hclosed]
        exact separates_concat
      · obtain rfl : w = ['('] := by
          rw [hopen] at hw
          exact hw.eq_chars nofun
        exact separates_cons (by decide) (by decide)

theorem fresh_of_tie (before : List Char) {closed : Bool} {c : Char} {gap next : List (Located Token)}
    {join : Option (Located Join)} {g v : List Char} (tie : Row.Tie closed gap join next) (hg : TextsOf gap g)
    (hv : TextsOf next v) (ends : endsTerm c = true) (paren : closed = true → c = ')') :
    Fresh (before ++ [c] ++ g) ∧ Starts (before ++ [c] ++ g) next := by
  cases tie with
  | last =>
    cases hg
    rw [List.append_nil]
    exact ⟨fresh_of_endsTerm before ends, nofun⟩
  | next boundary =>
    have closing : closed = true → (before ++ [c]).getLast? = some ')' := fun hclosed => by
      rw [List.getLast?_concat, paren hclosed]
    have fresh : Fresh ([] ++ (before ++ [c]) ++ g) := (separator_of_boundary boundary closing hg hv).fresh ends
    exact ⟨fresh, starts_of_boundary boundary hg⟩

/-- What a sequence becomes that no blanks around it part from anything. -/
theorem edit_sequence {a inner b : List (Located Token)} {as vs bs : List (List Char)} {row : Row}
    (ha : Row.Gap a) (hb : Row.Gap b) (has : Words a as) (hbs : Words b bs) (fresh : Fresh before)
    (noTerm : behindTerm before = false) (front : ∀ v, separates before v = false)
    (back : ∀ v, separates v behind = false)
    (terms : ∀ {before behind}, Fresh before → Starts before inner → edit before vs behind = row.chars) :
    edit before (as ++ vs ++ bs) behind = row.chars := by
  have blanks := has.textsOf.blanks_of_gap ha
  have starts : Starts (before ++ as.flatten) inner := fun _ => by rw [behindTerm_append_blanks before blanks, noTerm]
  rw [edit_append, edit_append, edit_gap ha has (front _), edit_gap hb hbs (back _),
    terms (fresh.append_blanks blanks) starts, List.nil_append, List.append_nil]

end Gap

/-! ### Rows -/

/-- Behind text that a term can stand behind, the texts of terms become the text of their row. -/
theorem edit_terms {ts : List (Located Token)} {row : Row} (h : Row.Terms ts row) :
    ∀ {before behind : List Char} {ws : List (List Char)}, Words ts ws → Fresh before → Starts before ts →
      edit before ws behind = row.chars := by
  -- The text in front grows with each term: it ends with the term, or with what ties the next one, and is fresh.
  induction h with
  | nil =>
    intro before behind ws hw _ _
    cases hw
    rfl
  | cluster x s counts tie terms ih =>
    intro before behind ws hw _ _
    obtain ⟨ls, _, rfl, hl, hsymbol⟩ := hw.exists_of_append
    obtain ⟨w, _, rfl, hx, hbehind⟩ := hsymbol.exists_of_cons
    obtain ⟨gs, vs, rfl, hg, hv⟩ := hbehind.exists_of_append
    have noGroup : false = true → x.glyph = ')' := Bool.noConfusion
    obtain rfl : w = [x.glyph] := hx.eq_chars (by simp)
    have ends : endsTerm x.glyph = true := by simp [endsTerm, x.kind_eq]
    obtain ⟨fresh, starts⟩ := fresh_of_tie (before ++ ls.flatten) tie hg.textsOf hv.textsOf ends noGroup
    rw [edit_append, edit, edit_append, edit_countLead counts hl, hx.editSegment_eq (by simp) (by simp),
      edit_tie tie terms hg hv noGroup fun _ => x.kind_eq, ih hv fresh starts]
    simp [Row.chars, Cluster.chars, Token.chars]
  | @group lead a inner b gap next _ _ _ _ _ o c leads beforeGap content behindGap tie terms ihb ih =>
    intro before behind ws hw fresh starts
    obtain ⟨_, _, rfl, hfront, hclosing⟩ := hw.exists_of_append
    obtain ⟨ls, _, rfl, hl, hopening⟩ := hfront.exists_of_append
    obtain ⟨w, _, rfl, hopen, hinside⟩ := hopening.exists_of_cons
    obtain ⟨_, bs, rfl, hai, hb⟩ := hinside.exists_of_append
    obtain ⟨as, is, rfl, ha, hi⟩ := hai.exists_of_append
    obtain ⟨w', _, rfl, hclose, hbehind⟩ := hclosing.exists_of_cons
    obtain ⟨gs, vs, rfl, hg, hv⟩ := hbehind.exists_of_append
    obtain rfl : w = ['('] := hopen.eq_chars (by simp)
    obtain rfl : w' = [')'] := hclose.eq_chars (by simp)
    have opening : ∀ v, edit before ls ('(' :: v) = _ := fun _ =>
      edit_groupLead (o.union c) ((Row.startSpan lead o).union (o.union c)) leads hl fresh starts.front.front
    have body : ∀ before v, edit (before ++ ['(']) (as ++ is ++ bs) (')' :: v) = _ := fun before v =>
      edit_sequence beforeGap behindGap ha hb (fresh_paren before) (behindTerm_concat _ (by decide))
        (fun _ => separates_concat) (fun _ => separates_cons (by decide) (by decide)) (ihb hi)
    have behindTerms : ∀ before, edit (before ++ [')']) (gs ++ vs) behind = _ := fun before => by
      obtain ⟨fresh, starts⟩ := fresh_of_tie before tie hg.textsOf hv.textsOf (by decide) fun _ => rfl
      rw [edit_append, edit_tie tie terms hg hv (fun _ => rfl) Bool.noConfusion, ih hv fresh starts]
    rw [edit_append, edit_append, edit, edit, hopen.editSegment_eq (by simp) (by simp),
      hclose.editSegment_eq (by simp) (by simp), behindTerms]
    refine (congrArg₂ (· ++ ·) (congrArg₂ (· ++ ·) (opening _) (congrArg (['('] ++ ·) (body _ _))) rfl).trans ?_
    simp [Row.chars, Token.chars]

/-! ### Lines -/

theorem words_of_readFrom {ls : List (Located Lexeme)} {ts : List (Located Token)}
    (h : List.Forall₂ Token.ReadFrom ls ts) (uniform : ∀ l ∈ ls, l.value.Uniform) :
    Words ts (ls.map (·.value.chars)) :=
  List.forall₂_map_left_iff.mpr <| ((List.forall₂_and_left _ _).mpr ⟨uniform, h⟩).imp fun _ _ ⟨hu, ht, _⟩ =>
    writes_of_token hu ht

/-- The segments of a line are the texts of its tokens. -/
theorem words_of_ofChars {line : List Char} {ts : List (Located Token)} (h : Token.ofChars line = .ok ts) :
    Words ts (segments line) := by
  have uniform : ∀ l ∈ Lexeme.place 0 (Lexeme.cut line), l.value.Uniform := fun l hl =>
    Lexeme.cut_uniform line l.value (Lexeme.value_mem_of_mem_place hl)
  have words := words_of_readFrom (Token.readFrom_of_ofChars h) uniform
  have hchars := congrArg (List.map Lexeme.chars) (Token.map_value_place_lexemes 0 (Lexeme.cut line))
  rw [List.map_map] at hchars
  rw [segments_eq_map_cut, ← hchars]
  exact words

end Editing

namespace Row
open Editing

/-- A canonical line is the line with its segments edited. -/
theorem eq_edit_of_canonical {s : Settings} {line c : String} (h : canonical s line = .ok c) :
    ∃ ws, Segmentation line.toList ws ∧ c.toList = edit [] ws [] := by
  obtain ⟨row, hread, rfl⟩ := exists_of_canonical h
  obtain ⟨ts, hts, hrow⟩ := ofLine_eq_ok_iff.mp (read_eq_ok_iff.mp hread)
  have hchars := Token.ofChars_of_ofLine hts
  obtain ⟨a, is, b, rfl, ha, terms, hb⟩ := derives_of_ofTokens (Token.admissible_of_ofChars hchars).spaced hrow
  obtain ⟨_, bs, hws, hfront, hbs⟩ := (words_of_ofChars hchars).exists_of_append
  obtain ⟨as, vs, rfl, has, hvs⟩ := hfront.exists_of_append
  refine ⟨_, segments_eq_iff.mp hws, ?_⟩
  have back : ∀ v, separates v [] = false := fun v => by simp [separates]
  rw [edit_sequence ha hb has hbs fresh_nil rfl (fun _ => rfl) back fun fresh starts =>
    edit_terms terms hvs fresh starts]
  exact String.toList_ofList

/-- The minus of a zero goes behind a sign but not behind a plus that ties, and blanks go but between two clusters. -/
theorem eq_edit_of_minus_zero :
    let line := "1x \t-2y +-0( --0() )  3z "
    canonical {} line = .ok "1x -2y+-0(-0())3z" ∧
      ∃ ws, Segmentation line.toList ws ∧ "1x -2y+-0(-0())3z".toList = edit [] ws [] := by
  intro line
  have h : canonical {} line = .ok "1x -2y+-0(-0())3z" := by decide +kernel
  exact ⟨h, eq_edit_of_canonical h⟩

end Row

end Dotwork
