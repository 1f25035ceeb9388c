import Dotwork.Proofs.Segments

/-!
# Printed tokens

The texts of tokens may stand side by side as long as no two of them would run together. The line that they make is
read as the same tokens, each at the bytes of its own text; and the tokens of any line are such tokens.
-/

namespace Dotwork.Token

/-- Tokens of which no two run together, and whose integers are signed words. -/
structure Printable (ts : List Token) : Prop where
  apart : ts.IsChain Apart
  inRange : ∀ t ∈ ts, t.InRange

/-- The line that the texts of some tokens make up. -/
def print (ts : List Token) : String :=
  String.join (ts.map text)

/-- The tokens of a line that some tokens have been printed to: they are the same, their spans follow one another from
    the start of the line to its end, and each span is as long as the text of its token. -/
structure Reread (ts : List Token) (us : List (Located Token)) : Prop where
  tokens : us.map (·.value) = ts
  tiles : Tiles 0 (print ts).utf8ByteSize us
  lengths : ∀ u ∈ us, u.span.length = u.value.text.utf8ByteSize

theorem toList_print (ts : List Token) : (print ts).toList = ts.flatMap chars := by
  simp only [print, String.toList_join, List.flatMap_map, text, String.toList_ofList]

theorem chars_lexeme (t : Token) : t.lexeme.chars = t.chars := by
  cases t <;> rfl

theorem length_of_mem_place {start : Nat} {ts : List Token} :
    ∀ u ∈ place start ts, u.span.length = u.value.text.utf8ByteSize := by
  induction ts generalizing start with
  | nil =>
    intro u hu
    cases hu
  | cons t ts ih =>
    refine List.forall_mem_cons.mpr ⟨?_, ih⟩
    rw [Span.length, Nat.add_sub_cancel_left, Lexeme.size_eq, chars_lexeme, text]

/-- Printed tokens are read as what they are. -/
theorem Printable.ofLine_print {ts : List Token} (h : Printable ts) :
    ∃ us, ofLine (print ts) = .ok us ∧ Reread ts us := by
  have hread : ofLine (print ts) = .ok (place 0 ts) := by
    rw [ofLine, toList_print, ofChars_flatMap_chars h.apart h.inRange]
    rfl
  exact ⟨place 0 ts, hread, map_value_place 0 ts, (segmented_of_ofLine hread).tiles, length_of_mem_place⟩

theorem printable_of_ofLine {line : String} {us : List (Located Token)} (h : ofLine line = .ok us) :
    Printable (us.map (·.value)) where
  apart := apart_of_ofChars (ofChars_of_ofLine h)
  inRange := List.forall_mem_map.mpr (bounded_of_ofChars (ofChars_of_ofLine h))

/-- Tokens that do not run together are read off what they are printed to, and no line has other tokens. -/
theorem reread_and_printable :
    (∀ ts, Printable ts → ∃ us, ofLine (print ts) = .ok us ∧ Reread ts us) ∧
      ∀ line us, ofLine line = .ok us → Printable (us.map (·.value)) :=
  ⟨fun _ h => h.ofLine_print, fun _ _ h => printable_of_ofLine h⟩

/-- Signs that touch each other and a number, a symbol of three bytes between numbers, and blanks on both sides. -/
theorem reread_of_touching_signs :
    let ts : List Token := [.blank, .plus, .minus, .integer 0, .symbol ⟨'◈', by decide +kernel⟩,
      .integer Word.greatestSigned, .leftParen, .rightParen, .blank]
    Printable ts ∧ print ts = " +-0◈9223372036854775807() " ∧ ∃ us, ofLine (print ts) = .ok us ∧ Reread ts us := by
  intro ts
  have printable : Printable ts := by
    constructor
    · simp [ts, Apart]
    · simp [ts, InRange]
  exact ⟨printable, by decide +kernel, reread_and_printable.1 ts printable⟩

end Dotwork.Token
