import Dotwork.Proofs.Acceptance
import Dotwork.Line
import Mathlib.Data.List.Chain
import Mathlib.Data.List.Forall2
import Mathlib.Tactic.IntervalCases

/-!
# Lexemes and tokens

Cutting a line puts apart what could be one run, and no more: no two integers and no two blanks stand side by
side among the tokens of a line, and tokens that stand so are what their texts are cut into. The tokens of a line
follow one another without a gap.
-/

namespace Dotwork

/-! ### Runs -/

namespace Lexeme

/-- Lexemes that would be one run cannot stand side by side. -/
def Apart : Lexeme → Lexeme → Prop
  | .digits _, .digits _ => False
  | .blanks _, .blanks _ => False
  | _, _ => True

theorem push_apart {c : Char} {rest : List Lexeme} (h : rest.IsChain Apart) : (push c rest).IsChain Apart := by
  -- Lengthening the first run leaves the kinds of all lexemes as they are.
  have lengthen : ∀ {l l' : Lexeme} {rest : List Lexeme}, (∀ m, Apart l m → Apart l' m) →
      (l :: rest).IsChain Apart → (l' :: rest).IsChain Apart := fun hl h => by
    rw [List.isChain_cons] at h ⊢
    exact ⟨fun m hm => hl m (h.1 m hm), h.2⟩
  unfold push
  split
  · exact lengthen (fun m hm => by cases m <;> exact hm) h
  · next hne =>
    refine List.isChain_cons.mpr ⟨fun m hm => ?_, h⟩
    obtain ⟨tail, rfl⟩ := List.head?_eq_some_iff.mp hm
    cases m with
    | digits run => exact absurd rfl (hne run tail)
    | blanks | glyph => trivial
  · exact lengthen (fun m hm => by cases m <;> exact hm) h
  · next hne =>
    refine List.isChain_cons.mpr ⟨fun m hm => ?_, h⟩
    obtain ⟨tail, rfl⟩ := List.head?_eq_some_iff.mp hm
    cases m with
    | blanks run => exact absurd rfl (hne run tail)
    | digits | glyph => trivial
  · exact List.isChain_cons.mpr ⟨fun m _ => by trivial, h⟩

theorem cut_apart (line : List Char) : (cut line).IsChain Apart := by
  induction line with
  | nil => exact .nil
  | cons c line ih => exact push_apart ih

/-- A run is not empty, and all of one kind. -/
def Uniform : Lexeme → Prop
  | .digits run => run ≠ [] ∧ ∀ c ∈ run, Glyph.kind c = .digit
  | .blanks run => run ≠ [] ∧ ∀ c ∈ run, Glyph.kind c = .blank
  | .glyph _ => True

theorem push_uniform {c : Char} {rest : List Lexeme} (h : ∀ l ∈ rest, l.Uniform) : ∀ l ∈ push c rest, l.Uniform := by
  unfold push
  split
  · next hc =>
    simp only [List.forall_mem_cons, Uniform] at h ⊢
    exact ⟨⟨List.cons_ne_nil _ _, hc, h.1.2⟩, h.2⟩
  · next hc _ =>
    simp only [List.forall_mem_cons, Uniform]
    exact ⟨⟨List.cons_ne_nil _ _, hc, by simp⟩, h⟩
  · next hc =>
    simp only [List.forall_mem_cons, Uniform] at h ⊢
    exact ⟨⟨List.cons_ne_nil _ _, hc, h.1.2⟩, h.2⟩
  · next hc _ =>
    simp only [List.forall_mem_cons, Uniform]
    exact ⟨⟨List.cons_ne_nil _ _, hc, by simp⟩, h⟩
  · exact List.forall_mem_cons.mpr ⟨trivial, h⟩

theorem cut_uniform (line : List Char) : ∀ l ∈ cut line, l.Uniform := by
  induction line with
  | nil =>
    intro l hl
    cases hl
  | cons c line ih => exact push_uniform ih

/-- A run of digits in front of what is no digit is one lexeme. -/
theorem cut_digits {run rest : List Char} (hne : run ≠ []) (hrun : ∀ c ∈ run, Glyph.kind c = .digit)
    (hrest : ∀ l ∈ (cut rest).head?, Apart (.digits []) l) : cut (run ++ rest) = .digits run :: cut rest := by
  induction run with
  | nil => exact absurd rfl hne
  | cons c run ih =>
    have hc : Glyph.kind c = .digit := hrun c List.mem_cons_self
    have hcut : cut (c :: run ++ rest) = push c (cut (run ++ rest)) := rfl
    rw [hcut]
    unfold push
    rw [hc]
    cases run with
    | nil =>
      rw [List.nil_append]
      cases hl : cut rest with
      | nil => rfl
      | cons l tail =>
        have hl' : Apart (.digits []) l := hrest l (by rw [hl]; rfl)
        cases l with
        | digits run => exact hl'.elim
        | blanks | glyph => rfl
    | cons d run => rw [ih (by simp) (fun x hx => hrun x (List.mem_cons_of_mem c hx))]

theorem cut_blank {c : Char} {rest : List Char} (hc : Glyph.kind c = .blank)
    (hrest : ∀ l ∈ (cut rest).head?, Apart (.blanks []) l) : cut (c :: rest) = .blanks [c] :: cut rest := by
  have hcut : cut (c :: rest) = push c (cut rest) := rfl
  rw [hcut]
  unfold push
  rw [hc]
  cases hl : cut rest with
  | nil => rfl
  | cons l tail =>
    have hl' : Apart (.blanks []) l := hrest l (by rw [hl]; rfl)
    cases l with
    | blanks run => exact hl'.elim
    | digits | glyph => rfl

theorem cut_glyph {c : Char} {rest : List Char} (hd : Glyph.kind c ≠ .digit) (hb : Glyph.kind c ≠ .blank) :
    cut (c :: rest) = .glyph c :: cut rest := by
  have hcut : cut (c :: rest) = push c (cut rest) := rfl
  rw [hcut]
  unfold push
  split <;> first | rfl | simp_all

end Lexeme

/-! ### The lexeme of a token -/

namespace Token

/-- Tokens that would be one lexeme cannot stand side by side. -/
def Apart : Token → Token → Prop
  | .integer _, .integer _ => False
  | .blank, .blank => False
  | _, _ => True

/-- The lexeme that a token is written as. -/
def lexeme : Token → Lexeme
  | .integer n => .digits (Nat.toDigits 10 n)
  | .symbol s => .glyph s.glyph
  | .plus => .glyph '+'
  | .minus => .glyph '-'
  | .leftParen => .glyph '('
  | .rightParen => .glyph ')'
  | .blank => .blanks [' ']

theorem lexeme_apart {t u : Token} (h : t.Apart u) : t.lexeme.Apart u.lexeme := by
  cases t <;> cases u <;> exact h

/-- Only zero is written with a zero in front. -/
theorem eq_zero_of_head?_toDigits {n : Nat} (h : (Nat.toDigits 10 n).head? = some '0') : n = 0 := by
  induction n using Nat.strongRecOn with
  | ind n ih =>
    by_cases hn : n < 10
    · rw [Nat.toDigits_of_lt_base hn] at h
      have hdigit : n.digitChar = '0' := Option.some.inj h
      interval_cases n <;> first | rfl | cases hdigit
    · have hne : Nat.toDigits 10 (n / 10) ≠ [] := Nat.toDigits_ne_nil
      rw [Nat.toDigits_of_base_le (by omega) (by omega), List.head?_append_of_ne_nil _ hne] at h
      have := ih (n / 10) (by omega) h
      omega

theorem lexeme_token {t : Token} (h : t.InRange) : t.lexeme.token = .ok t := by
  cases t with
  | integer n =>
    have hzero : ¬(1 < (Nat.toDigits 10 n).length ∧ (Nat.toDigits 10 n).head? = some '0') := fun ⟨hl, hh⟩ => by
      obtain rfl := eq_zero_of_head?_toDigits hh
      simp at hl
    have hn : n ≤ Word.greatestSigned := h
    simp only [lexeme, Lexeme.token, Lexeme.integer, if_neg hzero, Nat.ofDigitChars_ten_toDigits, hn, ↓reduceIte]
  | symbol s =>
    -- The glyphs of the notation are no symbols.
    have hne : ∀ c, Glyph.kind c ≠ .symbol → s.glyph ≠ c := fun c hc heq => hc (heq ▸ s.kind_eq)
    have hp := hne '+' (by decide)
    have hm := hne '-' (by decide)
    have hl := hne '(' (by decide)
    have hr := hne ')' (by decide)
    simp only [lexeme, Lexeme.token, Lexeme.single, hp, hm, hl, hr, ↓reduceIte, Symbol.ofGlyph_glyph]
  | plus | minus | leftParen | rightParen | blank => rfl

theorem cut_chars_append {t : Token} {rest : List Char}
    (hrest : ∀ l ∈ (Lexeme.cut rest).head?, t.lexeme.Apart l) :
    Lexeme.cut (t.chars ++ rest) = t.lexeme :: Lexeme.cut rest := by
  cases t with
  | integer n =>
    refine Lexeme.cut_digits Nat.toDigits_ne_nil (fun c hc => ?_) fun l hl => ?_
    · exact Glyph.kind_eq_digit_iff.mpr (Nat.isDigit_of_mem_toDigits (by decide) (by decide) hc)
    · have := hrest l hl
      cases l <;> exact this
  | blank =>
    refine Lexeme.cut_blank (by decide) fun l hl => ?_
    have := hrest l hl
    cases l <;> exact this
  | symbol s => exact Lexeme.cut_glyph (by rw [s.kind_eq]; decide) (by rw [s.kind_eq]; decide)
  | plus | minus | leftParen | rightParen => exact Lexeme.cut_glyph (by decide) (by decide)

/-- The text of tokens that stand apart is cut into their lexemes, whatever stands apart from them behind it. -/
theorem cut_flatMap_chars_append {ts : List Token} {rest : List Char} (h : ts.IsChain Apart)
    (hrest : ∀ t ∈ ts.getLast?, ∀ l ∈ (Lexeme.cut rest).head?, t.lexeme.Apart l) :
    Lexeme.cut (ts.flatMap chars ++ rest) = ts.map lexeme ++ Lexeme.cut rest := by
  induction ts with
  | nil => rfl
  | cons t ts ih =>
    obtain ⟨hhead, htail⟩ := List.isChain_cons.mp h
    cases ts with
    | nil =>
      rw [List.flatMap_singleton, cut_chars_append (hrest t rfl)]
      rfl
    | cons u ts =>
      have hcut := ih htail fun v hv => hrest v (by rwa [List.getLast?_cons_cons])
      have hnext : ∀ l ∈ (Lexeme.cut ((u :: ts).flatMap chars ++ rest)).head?, t.lexeme.Apart l := by
        rw [hcut]
        rintro l ⟨⟩
        exact lexeme_apart (hhead u rfl)
      rw [List.flatMap_cons, List.append_assoc, cut_chars_append hnext, hcut]
      rfl

theorem cut_flatMap_chars {ts : List Token} (h : ts.IsChain Apart) :
    Lexeme.cut (ts.flatMap chars) = ts.map lexeme := by
  have hcut : Lexeme.cut (ts.flatMap chars ++ []) = _ := cut_flatMap_chars_append h fun t _ l hl => by cases hl
  simpa [Lexeme.cut] using hcut

/-- A line whose lexemes are tokens is read as these. -/
theorem exists_ofChars {line : List Char} {ts : List Token}
    (h : List.Forall₂ (fun l t => l.token = .ok t) (Lexeme.cut line) ts) :
    ∃ us, ofChars line = .ok us ∧ us.map Located.value = ts := by
  generalize hcut : Lexeme.cut line = lexemes at h
  have reads : ∀ start, (Lexeme.place start lexemes).filterMap Lexeme.faultAt? = [] ∧
      ((Lexeme.place start lexemes).filterMap Lexeme.tokenAt?).map Located.value = ts := by
    clear hcut
    induction h with
    | nil => exact fun _ => ⟨rfl, rfl⟩
    | cons ht _ ih =>
      intro start
      obtain ⟨hf, hv⟩ := ih (start + _)
      simp only [Lexeme.place, List.filterMap_cons, Lexeme.faultAt?, Lexeme.tokenAt?, ht, List.map_cons]
      exact ⟨hf, by rw [hv]⟩
  obtain ⟨hf, hv⟩ := reads 0
  exact ⟨_, by simp only [ofChars, hcut, hf], hv⟩

/-- Places tokens one after another from an offset on. -/
def place : Nat → List Token → List (Located Token)
  | _, [] => []
  | start, t :: rest => ⟨t, ⟨start, start + t.lexeme.size⟩⟩ :: place (start + t.lexeme.size) rest

theorem map_value_place (start : Nat) (ts : List Token) : (place start ts).map (·.value) = ts := by
  induction ts generalizing start with
  | nil => rfl
  | cons t ts ih => rw [place, List.map_cons, ih]

end Token

/-! ### The tokens of a line -/

/-- Located values that follow one another without a gap from an offset on. -/
def Chained {α : Type} : Nat → List (Located α) → Prop
  | _, [] => True
  | start, x :: rest => x.span.start = start ∧ start ≤ x.span.stop ∧ Chained x.span.stop rest

theorem Lexeme.chained_place (start : Nat) (ls : List Lexeme) : Chained start (place start ls) := by
  induction ls generalizing start with
  | nil => trivial
  | cons l ls ih => exact ⟨rfl, Nat.le_add_right _ _, ih _⟩

namespace Token

/-- A token at the place of the lexeme that it was read from. -/
def ReadFrom (l : Located Lexeme) (t : Located Token) : Prop :=
  l.value.token = .ok t.value ∧ t.span = l.span

theorem forall₂_tokenAt? {ls : List (Located Lexeme)} (h : ls.filterMap Lexeme.faultAt? = []) :
    List.Forall₂ ReadFrom ls (ls.filterMap Lexeme.tokenAt?) := by
  induction ls with
  | nil => exact .nil
  | cons l ls ih =>
    have hnone : Lexeme.faultAt? l = none := by
      cases hf : Lexeme.faultAt? l with
      | none => rfl
      | some f => simp [hf] at h
    obtain ⟨t, ht⟩ := Lexeme.faultAt?_eq_none_iff.mp hnone
    rw [List.filterMap_cons, hnone] at h
    simp only [List.filterMap_cons, Lexeme.tokenAt?, ht]
    exact .cons ⟨ht, rfl⟩ (ih h)

theorem readFrom_of_ofChars {line : List Char} {ts : List (Located Token)} (h : ofChars line = .ok ts) :
    List.Forall₂ ReadFrom (Lexeme.place 0 (Lexeme.cut line)) ts := by
  simp only [ofChars] at h
  split at h
  · next hf =>
    cases h
    exact forall₂_tokenAt? hf
  · cases h

/-- The tokens of a line are those that its lexemes are read as, each at the place of its own. -/
theorem ofChars_of_readFrom {line : List Char} {ts : List (Located Token)}
    (h : List.Forall₂ ReadFrom (Lexeme.place 0 (Lexeme.cut line)) ts) : ofChars line = .ok ts := by
  simp only [ofChars]
  generalize Lexeme.place 0 (Lexeme.cut line) = ls at h
  obtain ⟨hf, hs⟩ : ls.filterMap Lexeme.faultAt? = [] ∧ ls.filterMap Lexeme.tokenAt? = ts := by
    induction h with
    | nil => exact ⟨rfl, rfl⟩
    | cons hl _ ih =>
      obtain ⟨hvalue, hspan⟩ := hl
      obtain ⟨hf, hs⟩ := ih
      simp only [List.filterMap_cons, Lexeme.faultAt?, Lexeme.tokenAt?, hvalue, hf, hs, ← hspan, and_self]
  rw [hf, hs]

/-- Tokens that stand apart are read back off their text. -/
theorem ofChars_flatMap_chars {ts : List Token} (apart : ts.IsChain Apart) (range : ∀ t ∈ ts, t.InRange) :
    ofChars (ts.flatMap chars) = .ok (place 0 ts) := by
  have reads : ∀ start, List.Forall₂ ReadFrom (Lexeme.place start (ts.map lexeme)) (place start ts) := by
    clear apart
    induction ts with
    | nil => exact fun _ => .nil
    | cons t ts ih =>
      intro start
      obtain ⟨ht, hts⟩ := List.forall_mem_cons.mp range
      exact .cons ⟨lexeme_token ht, rfl⟩ (ih hts _)
  refine ofChars_of_readFrom ?_
  rw [cut_flatMap_chars apart]
  exact reads 0

theorem single_ne {c : Char} {t : Token} (h : Lexeme.single c = .ok t) : (∀ n, t ≠ .integer n) ∧ t ≠ .blank := by
  unfold Lexeme.single at h
  repeat' split at h
  all_goals cases h <;> simp

theorem ReadFrom.integer {l : Located Lexeme} {n : Nat} {s : Span} (h : ReadFrom l ⟨.integer n, s⟩) :
    (∃ run, l.value = .digits run) ∧ n ≤ Word.greatestSigned := by
  obtain ⟨ht, -⟩ := h
  cases hl : l.value with
  | digits run =>
    rw [hl] at ht
    simp only [Lexeme.token, Lexeme.integer] at ht
    split at ht
    · cases ht
    · split at ht
      · cases ht
        exact ⟨⟨run, rfl⟩, by assumption⟩
      · cases ht
  | blanks run =>
    rw [hl] at ht
    cases ht
  | glyph c =>
    rw [hl] at ht
    exact absurd rfl ((single_ne ht).1 n)

theorem ReadFrom.blank {l : Located Lexeme} {s : Span} (h : ReadFrom l ⟨.blank, s⟩) :
    ∃ run, l.value = .blanks run := by
  obtain ⟨ht, -⟩ := h
  cases hl : l.value with
  | digits run =>
    rw [hl] at ht
    simp only [Lexeme.token, Lexeme.integer] at ht
    split at ht
    · cases ht
    · split at ht <;> cases ht
  | blanks run => exact ⟨run, rfl⟩
  | glyph c =>
    rw [hl] at ht
    exact absurd rfl (single_ne ht).2

theorem ReadFrom.apart {l m : Located Lexeme} {t u : Located Token} (hl : ReadFrom l t) (hm : ReadFrom m u)
    (h : l.value.Apart m.value) : t.value.Apart u.value := by
  obtain ⟨v, p⟩ := t
  obtain ⟨w, q⟩ := u
  cases v <;> cases w <;> try trivial
  · obtain ⟨⟨run, hrun⟩, -⟩ := hl.integer
    obtain ⟨⟨run', hrun'⟩, -⟩ := hm.integer
    rwa [hrun, hrun'] at h
  · obtain ⟨run, hrun⟩ := hl.blank
    obtain ⟨run', hrun'⟩ := hm.blank
    rwa [hrun, hrun'] at h

theorem map_value_place_lexemes (start : Nat) (ls : List Lexeme) : (Lexeme.place start ls).map (·.value) = ls := by
  induction ls generalizing start with
  | nil => rfl
  | cons l ls ih => rw [Lexeme.place, List.map_cons, ih]

section Reading
variable {ls : List (Located Lexeme)} {ts : List (Located Token)}

theorem apart_of_readFrom (h : List.Forall₂ ReadFrom ls ts) (apart : (ls.map (·.value)).IsChain Lexeme.Apart) :
    (ts.map (·.value)).IsChain Apart := by
  induction h with
  | nil => exact .nil
  | @cons l t ls ts hl hrest ih =>
    obtain ⟨hhead, htail⟩ := List.isChain_cons.mp apart
    refine List.isChain_cons.mpr ⟨fun u hu => ?_, ih htail⟩
    cases hrest with
    | nil => cases hu
    | cons hm _ =>
      cases hu
      exact hl.apart hm (hhead _ rfl)

theorem chained_of_readFrom (h : List.Forall₂ ReadFrom ls ts) :
    ∀ {start : Nat}, Chained start ls → Chained start ts := by
  induction h with
  | nil => exact id
  | cons hl _ ih => exact fun ⟨h₁, h₂, h₃⟩ => ⟨hl.2 ▸ h₁, hl.2 ▸ h₂, ih (hl.2 ▸ h₃)⟩

theorem bounded_of_readFrom (h : List.Forall₂ ReadFrom ls ts) : Row.Bounded ts := by
  induction h with
  | nil =>
    intro t ht
    cases ht
  | @cons l t ls ts hl _ ih =>
    intro u hu
    rcases List.mem_cons.mp hu with rfl | hu
    · obtain ⟨v, p⟩ := u
      cases v with
      | integer n => exact hl.integer.2
      | symbol | plus | minus | leftParen | rightParen | blank => trivial
    · exact ih u hu

end Reading

section Line
variable {line : List Char} {ts : List (Located Token)}

theorem apart_of_ofChars (h : ofChars line = .ok ts) : (ts.map (·.value)).IsChain Apart := by
  refine apart_of_readFrom (readFrom_of_ofChars h) ?_
  rw [map_value_place_lexemes]
  exact Lexeme.cut_apart line

theorem bounded_of_ofChars (h : ofChars line = .ok ts) : Row.Bounded ts :=
  bounded_of_readFrom (readFrom_of_ofChars h)

theorem chained_of_ofChars (h : ofChars line = .ok ts) : Chained 0 ts :=
  chained_of_readFrom (readFrom_of_ofChars h) (Lexeme.chained_place 0 _)

/-- The tokens of a line are such as the grammar is exact for. -/
theorem admissible_of_ofChars (h : ofChars line = .ok ts) : Row.Admissible ts where
  spaced := by
    have hchain := (List.isChain_map (Located.value : Located Token → Token)).mp (apart_of_ofChars h)
    refine hchain.imp fun t u htu => ?_
    rintro ⟨ht, hu⟩
    rw [ht, hu] at htu
    exact htu
  bounded := bounded_of_ofChars h

end Line

theorem ofChars_of_ofLine {line : String} {ts : List (Located Token)} (h : ofLine line = .ok ts) :
    ofChars line.toList = .ok ts := by
  unfold ofLine at h
  cases hc : ofChars line.toList with
  | error faults =>
    rw [hc] at h
    cases h
  | ok us =>
    rw [hc] at h
    cases h
    rfl

end Token

end Dotwork
