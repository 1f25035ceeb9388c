import Dotwork.Line
import Dotwork.Proofs.Segments

/-!
# Lexical faults

Which segments of a line are no tokens. A line with such segments is refused with one diagnostic for each of them, in
textual order and whatever else is in the line; a line without is cut into its tokens.
-/

namespace Dotwork

/-- The class of the fault of a segment that is no token: a foreign glyph, digits with a zero in front, or digits whose
    value is no signed word. -/
def segmentFault? (w : List Char) : Option Diagnostic.Code :=
  if w.any (Glyph.kind · = .foreign) then some .foreignGlyph
  else if w.all (Glyph.kind · = .digit) then
    if 2 ≤ w.length ∧ w.head? = some '0' then some .malformedInteger
    else if Word.greatestSigned < Nat.ofDigitChars 10 w 0 then some .integerOutOfRange
    else none
  else none

/-- The classes and the places of the segments of a line that are no tokens. -/
def lexicalFaults (line : List Char) : List (Located Diagnostic.Code) :=
  (placed 0 (segments line)).filterMap fun w => (segmentFault? w.value).map fun code => ⟨code, w.span⟩

/-- A diagnostic of a fault has its class and marks its place and nothing else; it says what is wrong there and how
    to mend it. -/
structure Reports (f : Located Diagnostic.Code) (d : Diagnostic) : Prop where
  code : d.code = some f.value
  labels : d.labels = [⟨f.span, f.value.description, true⟩]
  message : d.message ≠ "unexpected character"
  help : d.help ≠ none

namespace IsRun
variable {k : Glyph.Kind} {w : List Char}

theorem any_kind (h : IsRun k w) (j : Glyph.Kind) : w.any (Glyph.kind · = j) = decide (k = j) := by
  obtain ⟨hne, hkind⟩ := h
  rw [Bool.eq_iff_iff]
  simp only [List.any_eq_true, decide_eq_true_eq]
  constructor
  · rintro ⟨c, hc, hj⟩
    exact (hkind c hc).symm.trans hj
  · intro hj
    obtain ⟨c, hc⟩ := List.exists_mem_of_ne_nil w hne
    exact ⟨c, hc, (hkind c hc).trans hj⟩

theorem all_kind (h : IsRun k w) (j : Glyph.Kind) : w.all (Glyph.kind · = j) = decide (k = j) := by
  obtain ⟨hne, hkind⟩ := h
  rw [Bool.eq_iff_iff]
  simp only [List.all_eq_true, decide_eq_true_eq]
  constructor
  · intro hall
    obtain ⟨c, hc⟩ := List.exists_mem_of_ne_nil w hne
    exact (hkind c hc).symm.trans (hall c hc)
  · exact fun hj c hc => (hkind c hc).trans hj

end IsRun

namespace Lexeme

theorem single_error {c : Char} {f : Fault} (h : single c = .error f) : f.code = .foreignGlyph := by
  unfold single at h
  repeat' split at h
  all_goals cases h
  rfl

theorem segmentFault?_digits {run : List Char} (h : IsRun .digit run) :
    segmentFault? run = match integer run with
      | .ok _ => none
      | .error f => some f.code := by
  rw [segmentFault?, h.any_kind, h.all_kind, if_neg (by decide), if_pos (by decide), integer]
  by_cases hzero : 2 ≤ run.length ∧ run.head? = some '0'
  · have hzero' : 1 < run.length ∧ run.head? = some '0' := hzero
    rw [if_pos hzero, if_pos hzero']
    rfl
  · have hzero' : ¬(1 < run.length ∧ run.head? = some '0') := hzero
    rw [if_neg hzero, if_neg hzero']
    by_cases hlarge : Word.greatestSigned < Nat.ofDigitChars 10 run 0
    · rw [if_pos hlarge, if_neg (Nat.not_le.mpr hlarge)]
      rfl
    · rw [if_neg hlarge, if_pos (Nat.not_lt.mp hlarge)]

theorem segmentFault?_glyph {c : Char} (noDigit : Glyph.kind c ≠ .digit) (noBlank : Glyph.kind c ≠ .blank) :
    segmentFault? [c] = match single c with
      | .ok _ => none
      | .error f => some f.code := by
  cases h : single c with
  | ok t =>
    have noForeign : Glyph.kind c ≠ .foreign := fun hk => by
      have hcalls := single_eq_ok_iff.mp h
      unfold Glyph.token? at hcalls
      split at hcalls <;> simp_all
    simp [segmentFault?, noForeign, noDigit]
  | error f =>
    have hforeign : Glyph.kind c = .foreign := by
      have hnone : Glyph.token? c = none := Option.eq_none_iff_forall_ne_some.mpr fun t ht => by
        rw [single_eq_ok_iff.mpr ht] at h
        cases h
      unfold Glyph.token? at hnone
      split at hnone <;> simp_all
    simp [segmentFault?, hforeign, single_error h]

theorem segmentFault?_chars {l : Lexeme} (uniform : l.Uniform) (lone : l.Lone) :
    segmentFault? l.chars = match l.token with
      | .ok _ => none
      | .error f => some f.code := by
  cases l with
  | digits run => exact segmentFault?_digits uniform
  | blanks run =>
    have blanks : IsRun .blank run := uniform
    rw [chars, segmentFault?, blanks.any_kind, blanks.all_kind, if_neg (by decide), if_neg (by decide)]
    rfl
  | glyph c => exact segmentFault?_glyph lone.1 lone.2

end Lexeme

theorem lexicalFaults_eq (line : List Char) :
    lexicalFaults line =
      ((Lexeme.place 0 (Lexeme.cut line)).filterMap Lexeme.faultAt?).map (Located.map Lexeme.Fault.code) := by
  rw [lexicalFaults, segments_eq_map_cut, ← map_chars_place, List.filterMap_map, List.map_filterMap]
  refine List.filterMap_congr fun l hl => ?_
  have hcut := Lexeme.value_mem_of_mem_place hl
  have hfault := Lexeme.segmentFault?_chars (Lexeme.cut_uniform line l.value hcut) (Lexeme.cut_lone line l.value hcut)
  simp only [Function.comp_apply, Located.map, hfault, Lexeme.faultAt?]
  cases l.value.token <;> rfl

theorem any_head?_append {front : String} {p : Char → Bool} (h : front.toList.head?.any p = true) (back : String) :
    (front ++ back).toList.head?.any p = true := by
  cases hf : front.toList.head? with
  | none =>
    rw [hf] at h
    cases h
  | some c =>
    rw [hf] at h
    rwa [String.toList_append, List.head?_append, hf]

/-- Every message is about the text at fault, and none says just that something is unexpected. -/
theorem Lexeme.Fault.message_ne (f : Lexeme.Fault) : f.message ≠ "unexpected character" := by
  -- The first glyph of a message tells them apart already, whatever text it quotes.
  have begins : f.message.toList.head?.any (· != 'u') = true := by
    rcases f with (c | _ | c) | run | run
    · exact any_head?_append (any_head?_append (by decide) _) _
    · decide +kernel
    · exact any_head?_append (any_head?_append (by decide) _) _
    · exact any_head?_append (any_head?_append (by decide) _) _
    · exact any_head?_append (any_head?_append (by decide) _) _
  intro h
  rw [h] at begins
  exact absurd begins (by decide +kernel)

theorem Lexeme.Fault.reports (f : Located Lexeme.Fault) :
    Reports (f.map Lexeme.Fault.code) (Lexeme.Fault.diagnostic f) :=
  ⟨rfl, rfl, f.value.message_ne, fun h => by cases h⟩

/-- A line is cut into tokens if and only if it has no lexical fault, and otherwise it is refused, under every limit, with
    one diagnostic for each of them. -/
theorem reported_of_lexicalFaults (line : String) :
    ((∃ ts, Token.ofLine line = .ok ts) ↔ lexicalFaults line.toList = []) ∧
      (lexicalFaults line.toList ≠ [] →
        ∃ report, Token.ofLine line = .error report ∧ (∀ limit, Row.ofLine limit line = .error report) ∧
          List.Forall₂ Reports (lexicalFaults line.toList) report) := by
  rw [lexicalFaults_eq]
  cases hf : (Lexeme.place 0 (Lexeme.cut line.toList)).filterMap Lexeme.faultAt? with
  | nil =>
    have hread : Token.ofLine line =
        .ok ((Lexeme.place 0 (Lexeme.cut line.toList)).filterMap Lexeme.tokenAt?) := by
      simp only [Token.ofLine, Token.ofChars, hf]
      rfl
    exact ⟨iff_of_true ⟨_, hread⟩ rfl, fun h => absurd rfl h⟩
  | cons f fs =>
    have hrefused : Token.ofLine line = .error ((f :: fs).map Lexeme.Fault.diagnostic) := by
      simp only [Token.ofLine, Token.ofChars, hf]
      rfl
    refine ⟨iff_of_false ?_ (List.cons_ne_nil _ _), fun _ => ⟨_, hrefused, fun limit => ?_, ?_⟩⟩
    · rintro ⟨ts, hts⟩
      rw [hrefused] at hts
      cases hts
    · simp only [Row.ofLine, hrefused]
    · rw [List.forall₂_map_left_iff, List.forall₂_map_right_iff]
      exact List.forall₂_same.mpr fun f _ => Lexeme.Fault.reports f

/-- Digits with a zero in front, two foreign glyphs and digits beyond the words touch one another, and each is reported. -/
theorem reported_of_adjacent_faults :
    let line := "007\u0301\u066318446744073709551616"
    let faults := lexicalFaults line.toList
    faults = [⟨.malformedInteger, ⟨0, 3⟩⟩, ⟨.foreignGlyph, ⟨3, 5⟩⟩, ⟨.foreignGlyph, ⟨5, 7⟩⟩,
        ⟨.integerOutOfRange, ⟨7, 27⟩⟩] ∧
      faults ≠ [] ∧ ∃ report, Token.ofLine line = .error report ∧ (∀ limit, Row.ofLine limit line = .error report) ∧
        List.Forall₂ Reports faults report := by
  intro line faults
  have hfaults : faults = [⟨.malformedInteger, ⟨0, 3⟩⟩, ⟨.foreignGlyph, ⟨3, 5⟩⟩, ⟨.foreignGlyph, ⟨5, 7⟩⟩,
      ⟨.integerOutOfRange, ⟨7, 27⟩⟩] := by decide +kernel
  have hne : faults ≠ [] := by simp [hfaults]
  exact ⟨hfaults, hne, (reported_of_lexicalFaults line).2 hne⟩

end Dotwork
