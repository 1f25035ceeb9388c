import Dotwork.Proofs.Relocation
import Dotwork.Proofs.Segments
import Dotwork.Proofs.Spelling

/-!
# Stretches of a line

Tokens that are next to each other in a line have a text of their own at a span of the line. When that text is read
alone, the same tokens are found in it, moved to its start. So a stretch can be parted between its tokens, and each
side is a stretch again.
-/

namespace Dotwork

open Script (Blanks)

/-! ### Lexemes one behind another -/

/-- The same lexemes from another offset on are read as the same tokens, moved. -/
theorem Token.readFrom_relocate {g : Nat → Nat} {ls : List Lexeme} {ts : List (Located Token)} {start : Nat}
    (hg : ∀ n, g (start + n) = g start + n) (h : List.Forall₂ ReadFrom (Lexeme.place start ls) ts) :
    List.Forall₂ ReadFrom (Lexeme.place (g start) ls) (ts.map (·.relocate g)) := by
  induction ls generalizing start ts with
  | nil =>
    cases h
    exact .nil
  | cons l ls ih =>
    obtain _ | @⟨_, t, _, ts, ⟨hvalue, hspan⟩, hrest⟩ := h
    have hnext : ∀ n, g (start + l.size + n) = g (start + l.size) + n := by
      intro n
      rw [Nat.add_assoc, hg, hg, Nat.add_assoc]
    refine .cons ⟨hvalue, ?_⟩ (hg l.size ▸ ih hnext hrest)
    show t.span.relocate g = _
    rw [hspan, Span.relocate, hg]

namespace Lexeme

/-- The bytes that lexemes take up one behind another. -/
def bytes (ls : List Lexeme) : Nat :=
  (String.ofList (ls.flatMap chars)).utf8ByteSize

theorem bytes_append (ls ms : List Lexeme) : bytes (ls ++ ms) = bytes ls + bytes ms := by
  rw [bytes, List.flatMap_append, String.ofList_append, String.utf8ByteSize_append, bytes, bytes]

theorem bytes_cons (l : Lexeme) (ls : List Lexeme) : bytes (l :: ls) = l.size + bytes ls := by
  rw [bytes, List.flatMap_cons, String.ofList_append, String.utf8ByteSize_append, ← size_eq, bytes]

theorem place_append (start : Nat) (ls ms : List Lexeme) :
    place start (ls ++ ms) = place start ls ++ place (start + bytes ls) ms := by
  induction ls generalizing start with
  | nil => rfl
  | cons l ls ih => rw [List.cons_append, place, place, ih, bytes_cons, Nat.add_assoc, List.cons_append]

end Lexeme

namespace Row
variable {limit : Nat} {line : String} {row : Row}

theorem exists_of_ofLine (h : ofLine limit line = .ok row) :
    ∃ ts, List.Forall₂ Token.ReadFrom (Lexeme.place 0 (Lexeme.cut line.toList)) ts ∧ Derives ts row ∧
      row.nesting ≤ limit := by
  obtain ⟨ts, hts, hrow⟩ := ofLine_eq_ok_iff.mp h
  have hchars := Token.ofChars_of_ofLine hts
  exact ⟨ts, Token.readFrom_of_ofChars hchars, derives_of_ofTokens (Token.admissible_of_ofChars hchars).spaced hrow,
    nesting_le_of_ofTokens hrow⟩

theorem ofLine_of_derives {ts : List (Located Token)}
    (reads : List.Forall₂ Token.ReadFrom (Lexeme.place 0 (Lexeme.cut line.toList)) ts) (derives : Derives ts row)
    (fits : row.nesting ≤ limit) : ofLine limit line = .ok row := by
  have hline : Token.ofLine line = .ok ts := by
    rw [Token.ofLine, Token.ofChars_of_readFrom reads]
    rfl
  exact ofLine_eq_ok_iff.mpr ⟨ts, hline, ofTokens_of_derives (Token.bounded_of_readFrom reads) derives fits⟩

end Row

/-- A glyph that belongs to no run parts the lexemes in front of it from those behind it. -/
theorem Lexeme.cut_append_cons (v w : List Char) {c : Char} (noDigit : Glyph.kind c ≠ .digit)
    (noBlank : Glyph.kind c ≠ .blank) : cut (v ++ c :: w) = cut v ++ .glyph c :: cut w := by
  have cutting : Cutting (cut v ++ .glyph c :: cut w) := by
    constructor
    case uniform => exact List.forall_mem_append.mpr ⟨cut_uniform v, List.forall_mem_cons.mpr ⟨trivial, cut_uniform w⟩⟩
    case lone =>
      exact List.forall_mem_append.mpr ⟨cut_lone v, List.forall_mem_cons.mpr ⟨⟨noDigit, noBlank⟩, cut_lone w⟩⟩
    case apart =>
      refine List.isChain_append.mpr ⟨cut_apart v, List.isChain_cons.mpr ⟨fun _ _ => trivial, cut_apart w⟩, ?_⟩
      rintro l - m ⟨⟩
      cases l <;> trivial
  have hcut := cutting.cut_eq
  rwa [List.flatMap_append, List.flatMap_cons, cut_chars, cut_chars] at hcut

/-! ### Tilings -/

namespace Tiles
variable {α : Type} {n m : Nat} {xs ys : List (Located α)}

theorem le (h : Tiles n m xs) : n ≤ m := by
  induction xs generalizing n with
  | nil => exact Nat.le_of_eq h
  | cons x xs ih =>
    obtain ⟨hstart, hstop, hrest⟩ := h
    exact Nat.le_of_lt (Nat.lt_of_lt_of_le hstop (ih hrest))

theorem exists_of_append (h : Tiles n m (xs ++ ys)) : ∃ k, Tiles n k xs ∧ Tiles k m ys := by
  induction xs generalizing n with
  | nil => exact ⟨n, rfl, h⟩
  | cons x xs ih =>
    obtain ⟨hstart, hstop, hrest⟩ := h
    obtain ⟨k, hxs, hys⟩ := ih hrest
    exact ⟨k, ⟨hstart, hstop, hxs⟩, hys⟩

theorem mem (h : Tiles n m xs) {x : Located α} (hx : x ∈ xs) : n ≤ x.span.start ∧ x.span.stop ≤ m := by
  induction xs generalizing n with
  | nil => cases hx
  | cons y xs ih =>
    obtain ⟨hstart, hstop, hrest⟩ := h
    rcases List.mem_cons.mp hx with rfl | hx
    · exact ⟨Nat.le_of_eq hstart.symm, hrest.le⟩
    · exact ⟨Nat.le_trans (Nat.le_of_lt hstop) (ih hrest hx).1, (ih hrest hx).2⟩

theorem lt (h : Tiles n m xs) (hne : xs ≠ []) : n < m := by
  obtain ⟨x, xs, rfl⟩ := List.exists_cons_of_ne_nil hne
  obtain ⟨-, hstop, hrest⟩ := h
  exact Nat.lt_of_lt_of_le hstop hrest.le

theorem stop_of_concat {x : Located α} (h : Tiles n m (xs ++ [x])) : x.span.stop = m := by
  obtain ⟨k, -, -, -, hstop⟩ := h.exists_of_append
  exact hstop

end Tiles

/-! ### Texts at spans -/

/-- A text stands in a line at a span of bytes. -/
def TextAt (line : List Char) (span : Span) (w : List Char) : Prop :=
  ∃ front back, line = front ++ w ++ back ∧
    span = ⟨(String.ofList front).utf8ByteSize, (String.ofList (front ++ w)).utf8ByteSize⟩

def BlankAt (line : List Char) (span : Span) : Prop :=
  ∃ w, TextAt line span w ∧ Blanks w

/-- Some tokens are read from lexemes of a line at a span, with the text `w`. -/
def Sits (line : List Char) (span : Span) (w : List Char) (ts : List (Located Token)) : Prop :=
  ∃ front ls back, Lexeme.cut line = front ++ ls ++ back ∧ w = ls.flatMap Lexeme.chars ∧
    span = ⟨Lexeme.bytes front, Lexeme.bytes front + Lexeme.bytes ls⟩ ∧
    List.Forall₂ Token.ReadFrom (Lexeme.place (Lexeme.bytes front) ls) ts

theorem Lexeme.tiles_place {ls : List Lexeme} (uniform : ∀ l ∈ ls, l.Uniform) (start : Nat) :
    Tiles start (start + bytes ls) (place start ls) := by
  induction ls generalizing start with
  | nil => rfl
  | cons l ls ih =>
    obtain ⟨hl, hls⟩ := List.forall_mem_cons.mp uniform
    have hne : l.chars ≠ [] := by
      cases l with
      | digits run | blanks run => exact hl.1
      | glyph c => exact List.cons_ne_nil c []
    have hpos : 0 < l.size := l.size_eq ▸ utf8ByteSize_ofList_pos hne
    rw [bytes_cons, ← Nat.add_assoc]
    exact ⟨rfl, Nat.lt_add_of_pos_right hpos, ih hls _⟩

theorem Token.exists_of_readFrom_append {ls : List Lexeme} {ts us : List (Located Token)} {start : Nat}
    (h : List.Forall₂ ReadFrom (Lexeme.place start ls) (ts ++ us)) :
    ∃ ls₁ ls₂, ls = ls₁ ++ ls₂ ∧ List.Forall₂ ReadFrom (Lexeme.place start ls₁) ts ∧
      List.Forall₂ ReadFrom (Lexeme.place (start + Lexeme.bytes ls₁) ls₂) us := by
  induction ts generalizing ls start with
  | nil => exact ⟨[], ls, rfl, .nil, h⟩
  | cons t ts ih =>
    cases ls with
    | nil => cases h
    | cons l ls =>
      obtain _ | ⟨hl, hrest⟩ := h
      obtain ⟨ls₁, ls₂, rfl, hts, hus⟩ := ih hrest
      refine ⟨l :: ls₁, ls₂, rfl, .cons hl hts, ?_⟩
      rwa [Lexeme.bytes_cons, ← Nat.add_assoc]

namespace Sits
variable {line w : List Char} {span : Span} {ts us : List (Located Token)}

theorem cutting (h : Sits line span w ts) : ∃ ls, Lexeme.Cutting ls ∧ w = ls.flatMap Lexeme.chars ∧
    span.stop = span.start + Lexeme.bytes ls ∧ List.Forall₂ Token.ReadFrom (Lexeme.place span.start ls) ts := by
  obtain ⟨front, ls, back, hcut, rfl, rfl, reads⟩ := h
  exact ⟨ls, (Lexeme.cutting_cut line).of_isInfix ⟨front, back, hcut.symm⟩, rfl, rfl, reads⟩

theorem textAt (h : Sits line span w ts) : TextAt line span w := by
  obtain ⟨front, ls, back, hcut, rfl, rfl, -⟩ := h
  refine ⟨front.flatMap Lexeme.chars, back.flatMap Lexeme.chars, ?_, ?_⟩
  · rw [← List.flatMap_append, ← List.flatMap_append, ← hcut, Lexeme.cut_chars]
  · rw [← Lexeme.bytes_append, Lexeme.bytes, Lexeme.bytes, List.flatMap_append]

theorem tiles (h : Sits line span w ts) : Tiles span.start span.stop ts := by
  obtain ⟨ls, cutting, -, hstop, reads⟩ := h.cutting
  rw [hstop]
  exact Tiles.of_forall₂ (reads.imp fun _ _ h => h.2) (Lexeme.tiles_place cutting.uniform _)

theorem exists_of_append (h : Sits line span w (ts ++ us)) :
    ∃ k v v', w = v ++ v' ∧ Sits line ⟨span.start, k⟩ v ts ∧ Sits line ⟨k, span.stop⟩ v' us := by
  obtain ⟨front, ls, back, hcut, rfl, rfl, reads⟩ := h
  obtain ⟨ls₁, ls₂, rfl, hts, hus⟩ := Token.exists_of_readFrom_append reads
  refine ⟨Lexeme.bytes front + Lexeme.bytes ls₁, _, _, List.flatMap_append, ?_, ?_⟩
  · exact ⟨front, ls₁, ls₂ ++ back, by simp [hcut], rfl, rfl, hts⟩
  · refine ⟨front ++ ls₁, ls₂, back, by simp [hcut], rfl, ?_, ?_⟩
    · simp only [Lexeme.bytes_append, Nat.add_assoc]
    · rwa [Lexeme.bytes_append]

theorem exists_of_cons {t : Located Token} (h : Sits line span w (t :: us)) :
    ∃ k v v', w = v ++ v' ∧ Sits line ⟨span.start, k⟩ v [t] ∧ Sits line ⟨k, span.stop⟩ v' us := by
  rw [← List.singleton_append] at h
  exact h.exists_of_append

theorem exists_of_isInfix (h : Sits line span w ts) (part : us <:+: ts) : ∃ inner v, Sits line inner v us := by
  obtain ⟨front, back, rfl⟩ := part
  obtain ⟨_, _, _, -, hfront, -⟩ := h.exists_of_append
  obtain ⟨_, _, _, -, -, hpart⟩ := hfront.exists_of_append
  exact ⟨_, _, hpart⟩

/-- The text alone is read as the same tokens, from its own start on. -/
theorem reads (h : Sits line span w ts) :
    List.Forall₂ Token.ReadFrom (Lexeme.place 0 (Lexeme.cut w)) (ts.map (·.relocate (· - span.start))) := by
  obtain ⟨ls, cutting, rfl, -, reads⟩ := h.cutting
  rw [cutting.cut_eq]
  have moved := Token.readFrom_relocate (g := (· - span.start)) (fun n => by omega) reads
  rwa [Nat.sub_self] at moved

theorem textsOf (h : Sits line span w ts) : Spelling.TextsOf ts w := by
  obtain ⟨ls, cutting, rfl, -, reads⟩ := h.cutting
  have hplaced := Token.map_value_place_lexemes span.start ls
  have texts := Spelling.textsOf_of_readFrom reads fun l hl =>
    cutting.uniform l.value (Lexeme.value_mem_of_mem_place hl)
  rwa [← List.flatMap_map, hplaced] at texts

theorem blankAt (h : Sits line span w ts) (gap : Row.Gap ts) : BlankAt line span :=
  ⟨w, h.textAt, h.textsOf.blanks_of_gap gap⟩

theorem of_singleton {t : Located Token} (h : Sits line span w [t]) : t.span = span ∧ ReadAs w t.value := by
  constructor
  · obtain ⟨hstart, -, hstop⟩ := h.tiles
    exact congrArg₂ Span.mk hstart hstop
  · obtain ⟨ls, cutting, rfl, -, reads⟩ := h.cutting
    cases ls with
    | nil => cases reads
    | cons l ls =>
      obtain _ | ⟨⟨hvalue, -⟩, hrest⟩ := reads
      cases ls with
      | nil =>
        rw [List.flatMap_singleton]
        exact Lexeme.readAs (cutting.uniform l List.mem_cons_self) hvalue
      | cons m ls => cases hrest

theorem of_line {line : String} {ts : List (Located Token)}
    (h : List.Forall₂ Token.ReadFrom (Lexeme.place 0 (Lexeme.cut line.toList)) ts) :
    Sits line.toList ⟨0, line.utf8ByteSize⟩ line.toList ts := by
  have hbytes : line.utf8ByteSize = Lexeme.bytes (Lexeme.cut line.toList) := by
    rw [Lexeme.bytes, Lexeme.cut_chars, String.ofList_toList]
  exact ⟨[], Lexeme.cut line.toList, [], by simp, (Lexeme.cut_chars _).symm, by simp [hbytes, Lexeme.bytes], h⟩

end Sits

theorem TextAt.stop_eq {line w : List Char} {span : Span} (h : TextAt line span w) :
    span.stop = span.start + (String.ofList w).utf8ByteSize := by
  obtain ⟨front, back, -, rfl⟩ := h
  rw [String.ofList_append, String.utf8ByteSize_append]

end Dotwork
