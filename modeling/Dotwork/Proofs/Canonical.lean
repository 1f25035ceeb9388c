import Dotwork.Proofs.RoundTrip
import Dotwork.Proofs.Sources

/-!
# Canonical lines

The canonical text of a line stands for the line: it is its own canonical text, also with a line break behind it, and
its row and its layout are those of the line, up to the places of their parts.
-/

namespace Dotwork

namespace Row

/-! ### A line break behind the text -/

theorem getLast?_joinTokens_append {join : Option (Located Join)} {row : Row} {t : Token}
    (ht : t ≠ .blank) (h : row.tokens.getLast? ≠ some .blank) :
    (t :: (joinTokens join row ++ row.tokens)).getLast? ≠ some .blank := by
  cases hempty : row.isEmpty with
  | true =>
    cases row with
    | nil => simpa [joinTokens, isEmpty, tokens] using ht
    | cluster | group => cases hempty
  | false =>
    rw [← List.cons_append, List.getLast?_append_of_ne_nil _ (tokens_ne_nil hempty)]
    exact h

/-- No row ends with a blank. -/
theorem getLast?_tokens_ne_blank (row : Row) : row.tokens.getLast? ≠ some .blank := by
  induction row with
  | nil => simp [tokens]
  | cluster c join rest ih =>
    rw [tokens, List.getLast?_append_of_ne_nil _ (List.cons_ne_nil _ _)]
    exact getLast?_joinTokens_append (by simp) ih
  | group h body join rest _ ih =>
    rw [tokens, List.getLast?_append_of_ne_nil _ (List.cons_ne_nil _ _), ← List.cons_append,
      List.getLast?_append_of_ne_nil _ (List.cons_ne_nil _ _)]
    exact getLast?_joinTokens_append (by simp) ih

/-- The line break behind the text of a row is a blank of its own. -/
theorem cut_chars_newline (row : Row) :
    Lexeme.cut (row.chars ++ ['\n']) = row.tokens.map Token.lexeme ++ [.blanks ['\n']] := by
  have hbreak : Lexeme.cut ['\n'] = [.blanks ['\n']] := by decide
  rw [← flatMap_tokens, Token.cut_flatMap_chars_append row.tokens_apart, hbreak]
  rw [hbreak]
  rintro t ht l ⟨⟩
  cases t with
  | blank => exact absurd ht row.getLast?_tokens_ne_blank
  | integer | symbol | plus | minus | leftParen | rightParen => trivial

theorem WellFormed.ofLine_text_newline {limit : Nat} {row : Row} (h : row.WellFormed limit) :
    ∃ row', ofLine limit (row.text ++ "\n") = .ok row' ∧ row'.Alike row := by
  have spelled : List.Forall₂ (fun l t => l.token = .ok t) (Lexeme.cut (row.text ++ "\n").toList)
      (row.tokens ++ [.blank]) := by
    have hbreak : "\n".toList = ['\n'] := rfl
    rw [String.toList_append, text, String.toList_ofList, hbreak, cut_chars_newline]
    refine List.rel_append ?_ (.cons rfl .nil)
    exact List.forall₂_map_left_iff.mpr
      (List.forall₂_same.mpr fun t ht => Token.lexeme_token (h.shaped.tokens_inRange t ht))
  obtain ⟨us, hread, hvalue⟩ := Token.exists_ofChars spelled
  obtain ⟨ts, b, rfl, hts, hb⟩ := List.map_eq_append_iff.mp hvalue
  obtain ⟨q, rfl⟩ := exists_of_map_value_singleton hb
  obtain ⟨row', hrow, alike⟩ := h.ofTokens_tokens hts (.blank q)
  have lexed : Token.ofLine (row.text ++ "\n") = .ok (ts ++ [⟨.blank, q⟩]) := by
    rw [Token.ofLine, hread]
    rfl
  exact ⟨row', ofLine_eq_ok_iff.mpr ⟨_, lexed, hrow⟩, alike⟩

/-! ### Readings of a line -/

theorem read_eq_ok_iff {s : Settings} {line : String} {row : Row} :
    read s line = .ok row ↔ ofLine s.maxDepth line = .ok row := by
  unfold read
  cases ofLine s.maxDepth line <;> simp [Except.mapError]

theorem exists_of_canonical {s : Settings} {line c : String} (h : canonical s line = .ok c) :
    ∃ row, read s line = .ok row ∧ c = row.text := by
  unfold canonical at h
  cases hr : read s line with
  | error problem =>
    rw [hr] at h
    cases h
  | ok row =>
    rw [hr] at h
    cases h
    exact ⟨row, rfl, rfl⟩

theorem canonical_of_read {s : Settings} {line : String} {row : Row} (h : read s line = .ok row) :
    canonical s line = .ok row.text := by
  rw [canonical, h]
  rfl

theorem wellFormed_of_read {s : Settings} {line : String} {row : Row} (h : read s line = .ok row) :
    row.WellFormed s.maxDepth := by
  obtain ⟨ts, hts, hrow⟩ := ofLine_eq_ok_iff.mp (read_eq_ok_iff.mp h)
  exact wellFormed_of_ofTokens (Token.admissible_of_ofChars (Token.ofChars_of_ofLine hts)) hrow

end Row

/-! ### The canonical line -/

theorem Layout.ofLine_of_read {s : Settings} {line : String} {row : Row} (h : Row.read s line = .ok row) :
    ofLine s line = (ofRow s row).mapError .placing := by
  rw [ofLine, h]

theorem Layout.ofLine_eq_ok_iff {s : Settings} {line : String} {row : Row} {l : Layout}
    (h : Row.read s line = .ok row) : ofLine s line = .ok l ↔ ofRow s row = .ok l := by
  rw [ofLine_of_read h]
  cases ofRow s row <;> simp [Except.mapError]

/-- The line `c` says what `line` says, and is canonical. -/
structure Row.Canonizes (s : Settings) (line c : String) : Prop where
  canonical : Row.canonical s c = .ok c
  newline : Row.canonical s (c ++ "\n") = .ok c
  row : ∃ row row', Row.read s line = .ok row ∧ Row.read s c = .ok row' ∧ row'.Alike row
  layout : (∃ l l', Layout.ofLine s line = .ok l ∧ Layout.ofLine s c = .ok l' ∧ l'.forget = l.forget) ∨
    ∃ f f', Layout.ofLine s line = .error (.placing f) ∧ Layout.ofLine s c = .error (.placing f') ∧
      f'.forget = f.forget

/-- The canonical text of a line is its own, also with a line break behind it, and has the row and the layout of the
    line. -/
theorem Row.canonizes_of_canonical {s : Settings} {line c : String} (h : canonical s line = .ok c) :
    Canonizes s line c := by
  obtain ⟨row, hread, rfl⟩ := exists_of_canonical h
  have formed := wellFormed_of_read hread
  obtain ⟨row', hread', alike⟩ := formed.ofLine_text
  replace hread' : read s row.text = .ok row' := read_eq_ok_iff.mpr hread'
  obtain ⟨row'', hread'', alike'⟩ := formed.ofLine_text_newline
  replace hread'' : read s (row.text ++ "\n") = .ok row'' := read_eq_ok_iff.mpr hread''
  constructor
  case canonical => exact (canonical_of_read hread').trans (congrArg _ alike.text_eq)
  case newline => exact (canonical_of_read hread'').trans (congrArg _ alike'.text_eq)
  case row => exact ⟨row, row', hread, hread', alike⟩
  case layout =>
    rw [Layout.ofLine_of_read hread, Layout.ofLine_of_read hread']
    rcases Layout.ofRow_of_alike s alike with ⟨l, l', hl, hl', same⟩ | ⟨f, f', hf, hf', same⟩
    · exact Or.inl ⟨l, l', by rw [hl]; rfl, by rw [hl']; rfl, same⟩
    · exact Or.inr ⟨f, f', by rw [hf]; rfl, by rw [hf']; rfl, same⟩

/-- Blanks go around parentheses and around a plus, and one stays between two clusters. -/
theorem Row.canonizes_of_blanks :
    canonical {} "\t( 1x   +  -2y\n3x ) " = .ok "(1x+-2y 3x)" ∧
      Canonizes {} "\t( 1x   +  -2y\n3x ) " "(1x+-2y 3x)" := by
  have h : canonical {} "\t( 1x   +  -2y\n3x ) " = .ok "(1x+-2y 3x)" := by decide +kernel
  exact ⟨h, canonizes_of_canonical h⟩

end Dotwork
