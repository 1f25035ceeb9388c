import Dotwork.Glyph
import Dotwork.Row
import Mathlib.Data.List.Basic

/-!
# The grammar of lines

Which texts are lines of the notation, said over their glyphs and without tokens. The grammar leaves open what may
stand as the magnitude of a group. Where that is an integer, no minus is in front of a zero behind the sign of a
group.
-/

namespace Dotwork.Script

/-! ### The grammar -/

def Blanks (w : List Char) : Prop :=
  ∀ c ∈ w, Glyph.kind c = .blank

inductive Natural : List Char → Prop
  | digits {d : Char} {ds : List Char} (nonzero : d ≠ '0') (digits : ∀ c ∈ d :: ds, Glyph.kind c = .digit) :
    Natural (d :: ds)

inductive Integer : List Char → Prop
  | zero : Integer ['0']
  | natural {w : List Char} (natural : Natural w) : Integer w
  | negative {w : List Char} (natural : Natural w) : Integer ('-' :: w)

/-- Integers, and a zero with a minus in front, which is no integer. -/
inductive SignedInteger : List Char → Prop
  | integer {w : List Char} (integer : Integer w) : SignedInteger w
  | negatedZero : SignedInteger ['-', '0']

/-- What stands between a term and the terms behind it, where the text of both is given: a parenthesis between them
    separates by itself. -/
inductive Separator (left right : List Char) : List Char → Prop
  | plus {a b : List Char} (before : Blanks a) (behind : Blanks b) : Separator left right (a ++ '+' :: b)
  | space {a : List Char} (some : a ≠ []) (blanks : Blanks a) : Separator left right a
  | touch (paren : left.getLast? = some ')' ∨ right.head? = some '(') : Separator left right []

/-- The parts of a line. -/
inductive Category
  | term
  | terms
  | sequence

/-- The texts of each part, with the texts that may be the magnitude of a group. -/
inductive Derives (Magnitude : List Char → Prop) : Category → List Char → Prop
  | cluster {n : List Char} {x : Char} (count : Integer n) (symbol : Glyph.kind x = .symbol) :
    Derives Magnitude .term (n ++ [x])
  | group {m w : List Char} (sign : Option Sign) (magnitude : m = [] ∨ Magnitude m)
      (body : Derives Magnitude .sequence w) :
    Derives Magnitude .term ((sign.map Sign.char).toList ++ m ++ '(' :: w ++ [')'])
  | last {w : List Char} (term : Derives Magnitude .term w) : Derives Magnitude .terms w
  | next {w gap v : List Char} (term : Derives Magnitude .term w) (separator : Separator w v gap)
      (terms : Derives Magnitude .terms v) :
    Derives Magnitude .terms (w ++ gap ++ v)
  | empty {a b : List Char} (before : Blanks a) (behind : Blanks b) : Derives Magnitude .sequence (a ++ b)
  | sequence {a w b : List Char} (before : Blanks a) (terms : Derives Magnitude .terms w) (behind : Blanks b) :
    Derives Magnitude .sequence (a ++ w ++ b)

/-! ### Negated zeros -/

/-- A term ends with its symbol or with its closing parenthesis. -/
def endsTerm (c : Char) : Bool :=
  c == ')' || Glyph.kind c == .symbol

/-- The last glyph that is no blank ends a term. -/
def behindTerm (w : List Char) : Bool :=
  (w.filter fun c => Glyph.kind c != .blank).getLast?.any endsTerm

/-- The text in front of a parenthesis ends with a zero that a minus negates behind the sign of a group. A plus
    behind a term is no sign. -/
def NegatesZero (before : List Char) : Prop :=
  ∃ (front : List Char) (g : Sign), before = front ++ [g.char, '-', '0'] ∧ (g = .plus → behindTerm front = false)

/-- Behind some text, no parenthesis of a text has a negated zero in front. -/
def Clean (before w : List Char) : Prop :=
  ∀ v rest, w = v ++ '(' :: rest → ¬NegatesZero (before ++ v)

theorem blanks_nil : Blanks [] :=
  fun c hc => by cases hc

theorem kind_of_endsTerm {c : Char} (h : endsTerm c = true) : Glyph.kind c = .paren ∨ Glyph.kind c = .symbol := by
  rcases Bool.or_eq_true_iff.mp h with hc | hc
  · exact Or.inl (beq_iff_eq.mp hc ▸ by decide)
  · exact Or.inr (beq_iff_eq.mp hc)

theorem behindTerm_concat (w : List Char) {c : Char} (hc : Glyph.kind c ≠ .blank) :
    behindTerm (w ++ [c]) = endsTerm c := by
  simp [behindTerm, hc]

theorem behindTerm_append_blanks (w : List Char) {b : List Char} (hb : Blanks b) :
    behindTerm (w ++ b) = behindTerm w := by
  have hnone : b.filter (fun c => Glyph.kind c != .blank) = [] :=
    List.filter_eq_nil_iff.mpr fun c hc => by simp [hb c hc]
  rw [behindTerm, List.filter_append, hnone, List.append_nil, behindTerm]

theorem behindTerm_concat_blanks (w : List Char) {c : Char} {b : List Char} (hc : Glyph.kind c ≠ .blank)
    (hb : Blanks b) : behindTerm (w ++ [c] ++ b) = endsTerm c := by
  rw [behindTerm_append_blanks _ hb, behindTerm_concat w hc]

theorem clean_append {before w v : List Char} : Clean before (w ++ v) ↔ Clean before w ∧ Clean (before ++ w) v := by
  constructor
  · refine fun h => ⟨fun u rest hu => h u (rest ++ v) (by simp [hu]), fun u rest hu => ?_⟩
    rw [List.append_assoc]
    exact h (w ++ u) rest (by simp [hu])
  · rintro ⟨hw, hv⟩ u rest hu
    rcases List.append_eq_append_iff.mp hu with ⟨as, rfl, has⟩ | ⟨bs, rfl, hbs⟩
    · rw [← List.append_assoc]
      exact hv as rest has
    · cases bs with
      | nil =>
        have hclean := hv [] rest (by simpa using hbs.symm)
        simpa using hclean
      | cons c bs =>
        obtain ⟨rfl, rfl⟩ := List.cons.inj hbs
        exact hw u bs rfl

theorem Clean.front {before w v : List Char} (h : Clean before (w ++ v)) : Clean before w :=
  (clean_append.mp h).1

theorem Clean.behind {before w v : List Char} (h : Clean before (w ++ v)) : Clean (before ++ w) v :=
  (clean_append.mp h).2

theorem clean_of_notMem {before w : List Char} (h : '(' ∉ w) : Clean before w := by
  rintro v rest rfl
  simp at h

theorem clean_paren {before : List Char} (h : ¬NegatesZero before) : Clean before ['('] := by
  intro v rest hv
  cases v with
  | nil => rwa [List.append_nil]
  | cons c v => simp at hv

/-! ### The grammar negates no zero -/

theorem Blanks.notMem_paren {w : List Char} (h : Blanks w) : '(' ∉ w :=
  fun hw => absurd (h '(' hw) (by decide)

theorem Natural.notMem_paren {w : List Char} (h : Natural w) : '(' ∉ w := by
  cases h with
  | digits _ digits => exact fun hw => absurd (digits '(' hw) (by decide)

theorem Integer.notMem_paren {w : List Char} (h : Integer w) : '(' ∉ w := by
  cases h with
  | zero => decide
  | natural natural => exact natural.notMem_paren
  | negative natural => simpa using natural.notMem_paren

/-- Text that a term can stand behind: a plus that it ends with ties a term. -/
def Fresh (before : List Char) : Prop :=
  ∀ front c, before = front ++ [c] → Glyph.kind c ≠ .digit ∧ c ≠ '-' ∧ (c = '+' → behindTerm front = true)

theorem fresh_nil : Fresh [] :=
  fun front c h => by simp at h

theorem fresh_concat {w : List Char} {c : Char} :
    Fresh (w ++ [c]) ↔ Glyph.kind c ≠ .digit ∧ c ≠ '-' ∧ (c = '+' → behindTerm w = true) := by
  refine ⟨fun h => h w c rfl, fun h front d hd => ?_⟩
  obtain ⟨rfl, hcd⟩ := List.append_inj' hd rfl
  obtain rfl := List.singleton_inj.mp hcd
  exact h

theorem Fresh.append_blanks {w b : List Char} (h : Fresh w) (hb : Blanks b) : Fresh (w ++ b) := by
  rcases List.eq_nil_or_concat b with rfl | ⟨b, c, rfl⟩
  · rwa [List.append_nil]
  · have hc : Glyph.kind c = .blank := hb c (by simp)
    rw [List.concat_eq_append, ← List.append_assoc]
    refine fresh_concat.mpr ⟨by simp [hc], ?_, ?_⟩
    · rintro rfl
      exact absurd hc (by decide)
    · rintro rfl
      exact absurd hc (by decide)

theorem fresh_paren (w : List Char) : Fresh (w ++ ['(']) :=
  fresh_concat.mpr ⟨by decide, by decide, fun h => absurd h (by decide)⟩

theorem fresh_of_endsTerm (w : List Char) {c : Char} (h : endsTerm c = true) : Fresh (w ++ [c]) := by
  have hkind := kind_of_endsTerm h
  refine fresh_concat.mpr ⟨?_, ?_, ?_⟩
  · rcases hkind with hc | hc <;> simp [hc]
  · rintro rfl
    exact absurd h (by decide)
  · rintro rfl
    exact absurd h (by decide)

theorem Derives.exists_endsTerm {Magnitude : List Char → Prop} {w : List Char} (h : Derives Magnitude .term w) :
    ∃ v c, w = v ++ [c] ∧ endsTerm c = true := by
  cases h with
  | cluster count symbol => exact ⟨_, _, rfl, by simp [endsTerm, symbol]⟩
  | group => exact ⟨_, ')', rfl, by decide⟩

theorem not_negatesZero_concat (w : List Char) {c : Char} (h : c ≠ '0') : ¬NegatesZero (w ++ [c]) := by
  rintro ⟨front, g, hw, -⟩
  obtain ⟨-, hc⟩ := List.append_inj' (hw.trans (List.append_assoc front [g.char, '-'] ['0']).symm) rfl
  exact h (List.singleton_inj.mp hc)

theorem Natural.not_negatesZero {w : List Char} (h : Natural w) (before : List Char) :
    ¬NegatesZero (before ++ w) := by
  cases h with
  | @digits d ds nonzero digits =>
    rcases List.eq_nil_or_concat ds with rfl | ⟨u, c, rfl⟩
    · exact not_negatesZero_concat before nonzero
    · -- In front of the last digit stands another one, and so no minus.
      rintro ⟨front, g, hw, -⟩
      have hsplit : before ++ d :: u ++ [c] = front ++ [g.char, '-'] ++ ['0'] := by simpa using hw
      obtain ⟨hfront, -⟩ := List.append_inj' hsplit rfl
      have hlast := congrArg List.getLast? hfront
      rw [List.getLast?_append_of_ne_nil _ (List.cons_ne_nil _ _)] at hlast
      have hminus : '-' ∈ d :: u := List.mem_of_getLast? (hlast.trans (by simp))
      rw [List.concat_eq_append, ← List.cons_append] at digits
      exact absurd (digits '-' (List.mem_append_left _ hminus)) (by decide)

/-- Behind text that a term can stand behind, a sign and an integer negate no zero. -/
theorem Fresh.not_negatesZero {before m : List Char} (fresh : Fresh before) (sign : Option Sign)
    (hm : m = [] ∨ Integer m) : ¬NegatesZero (before ++ ((sign.map Sign.char).toList ++ m)) := by
  rcases hm with rfl | zero | natural | natural
  · cases sign with
    | none =>
      rintro ⟨front, g, hw, -⟩
      exact absurd (by decide) (fresh (front ++ [g.char, '-']) '0' (by simpa using hw)).1
    | some s => exact not_negatesZero_concat before (by cases s <;> decide)
  · rintro ⟨front, g, hw, hplus⟩
    cases sign with
    | none =>
      have hbefore : before = front ++ [g.char] ++ ['-'] := by
        have hsplit : before ++ ['0'] = front ++ [g.char] ++ ['-'] ++ ['0'] := by simpa using hw
        exact (List.append_inj' hsplit rfl).1
      exact (fresh _ _ hbefore).2.1 rfl
    | some s =>
      have hbefore : before = front ++ [g.char] := by
        have hsplit : before ++ [s.char, '0'] = front ++ [g.char] ++ ['-', '0'] := by simpa using hw
        exact (List.append_inj' hsplit rfl).1
      obtain ⟨-, hminus, hbehind⟩ := fresh _ _ hbefore
      cases g with
      | plus => exact absurd (hbehind rfl) (by simp [hplus rfl])
      | minus => exact hminus rfl
  · rw [← List.append_assoc]
    exact natural.not_negatesZero _
  · rw [← List.append_assoc, List.append_cons]
    exact natural.not_negatesZero _

theorem Separator.fresh {before left right gap : List Char} {c : Char} (h : Separator (left ++ [c]) right gap)
    (ends : endsTerm c = true) : Fresh (before ++ (left ++ [c]) ++ gap) := by
  have fresh : Fresh (before ++ (left ++ [c])) := by
    rw [← List.append_assoc]
    exact fresh_of_endsTerm _ ends
  cases h with
  | @plus a b ha hb =>
    have hkind : Glyph.kind c ≠ .blank := by
      rcases kind_of_endsTerm ends with hc | hc <;> simp [hc]
    have htie : behindTerm (before ++ (left ++ [c]) ++ a) = true := by
      rw [← List.append_assoc, behindTerm_concat_blanks _ hkind ha, ends]
    have hplus : Fresh (before ++ (left ++ [c]) ++ a ++ ['+']) :=
      fresh_concat.mpr ⟨by decide, by decide, fun _ => htie⟩
    simpa using hplus.append_blanks hb
  | space _ blanks => exact fresh.append_blanks blanks
  | touch => rwa [List.append_nil]

theorem Separator.notMem_paren {left right gap : List Char} (h : Separator left right gap) : '(' ∉ gap := by
  cases h with
  | plus before behind => simpa using ⟨before.notMem_paren, behind.notMem_paren⟩
  | space _ blanks => exact blanks.notMem_paren
  | touch => simp

/-- In what the grammar derives with integers for magnitudes, no minus is in front of a zero behind a sign. -/
theorem Derives.clean {part : Category} {w : List Char} (h : Derives Integer part w) :
    ∀ {before : List Char}, Fresh before → Clean before w := by
  -- Each part begins behind fresh text: a term leaves its end there, and a separator blanks or a plus that ties.
  induction h with
  | @cluster n x count symbol =>
    intro before _
    have hsymbol : '(' ∉ [x] := by
      rintro hx
      obtain rfl := List.mem_singleton.mp hx
      exact absurd symbol (by decide)
    exact clean_append.mpr ⟨clean_of_notMem count.notMem_paren, clean_of_notMem hsymbol⟩
  | @group m w sign magnitude body ih =>
    intro before fresh
    have hsign : '(' ∉ (sign.map Sign.char).toList := by
      rcases sign with _ | _ | _ <;> decide
    have hmagnitude : '(' ∉ m := by
      rcases magnitude with rfl | integer
      · exact List.not_mem_nil
      · exact integer.notMem_paren
    have lead : Clean before ((sign.map Sign.char).toList ++ m) :=
      clean_append.mpr ⟨clean_of_notMem hsign, clean_of_notMem hmagnitude⟩
    have paren := clean_append.mpr ⟨lead, clean_paren (fresh.not_negatesZero sign magnitude)⟩
    have inside := clean_append.mpr ⟨paren, ih (by rw [← List.append_assoc]; exact fresh_paren _)⟩
    have whole := clean_append.mpr ⟨inside, clean_of_notMem (w := [')']) (by decide)⟩
    simpa using whole
  | last term ih => exact ih
  | next term separator terms ihw ihv =>
    intro before fresh
    obtain ⟨left, c, rfl, ends⟩ := term.exists_endsTerm
    refine clean_append.mpr ⟨clean_append.mpr ⟨ihw fresh, clean_of_notMem separator.notMem_paren⟩, ihv ?_⟩
    rw [← List.append_assoc]
    exact separator.fresh ends
  | empty ha hb =>
    intro before _
    exact clean_of_notMem (by simpa using ⟨ha.notMem_paren, hb.notMem_paren⟩)
  | sequence ha terms hb ih =>
    intro before fresh
    have front := clean_append.mpr ⟨clean_of_notMem ha.notMem_paren, ih (fresh.append_blanks ha)⟩
    exact clean_append.mpr ⟨front, clean_of_notMem hb.notMem_paren⟩

end Dotwork.Script
