import Dotwork.Proofs.Lexing
import Mathlib.Data.List.SplitBy

/-!
# The segments of a line

A line has one cutting into its longest runs of digits, its longest runs of blanks, and its other glyphs one by one.
These segments are what its tokens are read from: a run of digits says its value, and a glyph that stands alone the
token that its kind calls for. The spans of the tokens divide the bytes of the line as the segments do.
-/

namespace Dotwork

namespace Glyph

/-- Neighbours that belong to one run: two digits, or two blanks. -/
def joins (c d : Char) : Bool :=
  kind c == kind d && (kind c == .digit || kind c == .blank)

/-- The token that the kind of a glyph calls for where the glyph stands alone. -/
def token? (c : Char) : Option Token :=
  match h : kind c with
  | .sign => some (if c = '+' then .plus else .minus)
  | .paren => some (if c = '(' then .leftParen else .rightParen)
  | .symbol => some (.symbol ⟨c, h⟩)
  | .digit | .blank | .foreign => none

theorem kind_eq_sign_iff {c : Char} : kind c = .sign ↔ c = '+' ∨ c = '-' := by
  refine ⟨fun h => ?_, fun h => by rcases h with rfl | rfl <;> decide⟩
  unfold kind at h
  split at h
  · cases h
  split at h
  · assumption
  repeat' split at h
  all_goals cases h

theorem kind_eq_paren_iff {c : Char} : kind c = .paren ↔ c = '(' ∨ c = ')' := by
  refine ⟨fun h => ?_, fun h => by rcases h with rfl | rfl <;> decide⟩
  unfold kind at h
  split at h
  · cases h
  split at h
  · cases h
  split at h
  · assumption
  repeat' split at h
  all_goals cases h

end Glyph

/-! ### Segments -/

/-- The longest runs of digits and of blanks in a line, and its other glyphs one by one. -/
def segments (line : List Char) : List (List Char) :=
  line.splitBy Glyph.joins

/-- Some glyphs of one kind. -/
def IsRun (k : Glyph.Kind) (w : List Char) : Prop :=
  w ≠ [] ∧ ∀ c ∈ w, Glyph.kind c = k

inductive IsSegment : List Char → Prop
  | digits {w : List Char} (run : IsRun .digit w) : IsSegment w
  | blanks {w : List Char} (run : IsRun .blank w) : IsSegment w
  | single {c : Char} (noDigit : Glyph.kind c ≠ .digit) (noBlank : Glyph.kind c ≠ .blank) : IsSegment [c]

/-- A cutting of a line into segments whose runs are as long as they can be. -/
structure Segmentation (line : List Char) (ws : List (List Char)) : Prop where
  whole : ws.flatten = line
  parts : ∀ w ∈ ws, IsSegment w
  longest : ws.IsChain fun v w => ∀ k, k = .digit ∨ k = .blank → ¬(IsRun k v ∧ IsRun k w)

namespace IsSegment
variable {w : List Char}

theorem ne_nil (h : IsSegment w) : w ≠ [] := by
  cases h with
  | digits run | blanks run => exact run.1
  | single => exact List.cons_ne_nil _ _

theorem isRun {k : Glyph.Kind} (h : IsSegment w) {c : Char} (hc : c ∈ w) (hk : Glyph.kind c = k)
    (hruns : k = .digit ∨ k = .blank) : IsRun k w := by
  subst hk
  cases h with
  | digits run | blanks run => exact (run.2 c hc).symm ▸ run
  | single noDigit noBlank =>
    rw [List.mem_singleton] at hc
    subst hc
    exact absurd hruns (not_or.mpr ⟨noDigit, noBlank⟩)

theorem isChain_joins (h : IsSegment w) : w.IsChain fun c d => Glyph.joins c d = true := by
  have run : ∀ {k}, k = .digit ∨ k = .blank → IsRun k w → w.IsChain fun c d => Glyph.joins c d = true :=
    fun hk hw => (List.pairwise_of_forall_mem_list fun c hc d hd => by
      simpa [Glyph.joins, hw.2 c hc, hw.2 d hd] using hk).isChain
  cases h with
  | digits hw => exact run (Or.inl rfl) hw
  | blanks hw => exact run (Or.inr rfl) hw
  | single => exact List.isChain_singleton _

end IsSegment

/-- Neighbours with different runs are cut apart, and no others, so there is one cutting. -/
theorem Segmentation.segments_eq {line : List Char} {ws : List (List Char)} (h : Segmentation line ws) :
    segments line = ws := by
  obtain ⟨rfl, parts, longest⟩ := h
  have apart : ws.IsChain fun v w => ∃ hv hw, Glyph.joins (v.getLast hv) (w.head hw) = false := by
    refine longest.imp_of_mem_imp fun v w hv hw hvw => ?_
    refine ⟨(parts v hv).ne_nil, (parts w hw).ne_nil, Bool.eq_false_iff.mpr fun hjoins => ?_⟩
    simp only [Glyph.joins, Bool.and_eq_true, Bool.or_eq_true, beq_iff_eq] at hjoins
    obtain ⟨hkind, hruns⟩ := hjoins
    exact hvw _ hruns ⟨(parts v hv).isRun (List.getLast_mem _) rfl hruns,
      (parts w hw).isRun (List.head_mem _) hkind.symm hruns⟩
  exact List.splitBy_flatten (fun hnil => (parts [] hnil).ne_nil rfl) (fun w hw => (parts w hw).isChain_joins) apart

namespace Lexeme

/-- A glyph that stands alone is neither a digit nor a blank. -/
def Lone : Lexeme → Prop
  | .glyph c => Glyph.kind c ≠ .digit ∧ Glyph.kind c ≠ .blank
  | .digits _ | .blanks _ => True

theorem push_lone {c : Char} {rest : List Lexeme} (h : ∀ l ∈ rest, l.Lone) : ∀ l ∈ push c rest, l.Lone := by
  unfold push
  split
  · exact List.forall_mem_cons.mpr ⟨trivial, (List.forall_mem_cons.mp h).2⟩
  · exact List.forall_mem_cons.mpr ⟨trivial, h⟩
  · exact List.forall_mem_cons.mpr ⟨trivial, (List.forall_mem_cons.mp h).2⟩
  · exact List.forall_mem_cons.mpr ⟨trivial, h⟩
  · next hdigit hblank _ _ => exact List.forall_mem_cons.mpr ⟨⟨hdigit, hblank⟩, h⟩

theorem cut_lone (line : List Char) : ∀ l ∈ cut line, l.Lone := by
  induction line with
  | nil =>
    intro l hl
    cases hl
  | cons c line ih => exact push_lone ih

theorem isSegment {l : Lexeme} (uniform : l.Uniform) (lone : l.Lone) : IsSegment l.chars := by
  cases l with
  | digits run => exact .digits uniform
  | blanks run => exact .blanks uniform
  | glyph c => exact .single lone.1 lone.2

theorem value_mem_of_mem_place {start : Nat} {ls : List Lexeme} {l : Located Lexeme} (h : l ∈ place start ls) :
    l.value ∈ ls :=
  Token.map_value_place_lexemes start ls ▸ List.mem_map_of_mem h

theorem kind_of_isRun {l : Lexeme} (uniform : l.Uniform) (lone : l.Lone) {k : Glyph.Kind}
    (hk : k = .digit ∨ k = .blank) (h : IsRun k l.chars) :
    (∃ run, l = .digits run) ∧ k = .digit ∨ (∃ run, l = .blanks run) ∧ k = .blank := by
  obtain ⟨hne, hkind⟩ := h
  cases l with
  | digits run =>
    obtain ⟨c, hc⟩ := List.exists_mem_of_ne_nil _ hne
    exact Or.inl ⟨⟨run, rfl⟩, (hkind c hc).symm.trans (uniform.2 c hc)⟩
  | blanks run =>
    obtain ⟨c, hc⟩ := List.exists_mem_of_ne_nil _ hne
    exact Or.inr ⟨⟨run, rfl⟩, (hkind c hc).symm.trans (uniform.2 c hc)⟩
  | glyph c =>
    have hc := hkind c (List.mem_singleton_self c)
    exact absurd (hc ▸ hk) (not_or.mpr lone)

/-- Lexemes as a line is cut into them: runs as long as they can be, and glyphs that stand alone. -/
structure Cutting (ls : List Lexeme) : Prop where
  uniform : ∀ l ∈ ls, l.Uniform
  lone : ∀ l ∈ ls, l.Lone
  apart : ls.IsChain Apart

theorem cutting_cut (line : List Char) : Cutting (cut line) :=
  ⟨cut_uniform line, cut_lone line, cut_apart line⟩

theorem Cutting.segmentation {ls : List Lexeme} (h : Cutting ls) : Segmentation (ls.flatMap chars) (ls.map chars) where
  whole := (List.flatMap_def ..).symm
  parts := by
    intro w hw
    obtain ⟨l, hl, rfl⟩ := List.mem_map.mp hw
    exact isSegment (h.uniform l hl) (h.lone l hl)
  longest := by
    refine (List.isChain_map chars).mpr (h.apart.imp_of_mem_imp fun l m hl hm hlm => ?_)
    rintro k hk ⟨hv, hw⟩
    have hl := kind_of_isRun (h.uniform l hl) (h.lone l hl) hk hv
    have hm := kind_of_isRun (h.uniform m hm) (h.lone m hm) hk hw
    -- Neighbours that are both of digits, or both of blanks, are not apart.
    rcases hl with ⟨⟨v, rfl⟩, rfl⟩ | ⟨⟨v, rfl⟩, rfl⟩
    · rcases hm with ⟨⟨w, rfl⟩, -⟩ | ⟨-, hk⟩
      · exact hlm
      · cases hk
    · rcases hm with ⟨-, hk⟩ | ⟨⟨w, rfl⟩, -⟩
      · cases hk
      · exact hlm

/-- The lexemes of a line are its segments. -/
theorem segmentation_cut (line : List Char) : Segmentation line ((cut line).map chars) := by
  have cutting := (cutting_cut line).segmentation
  rwa [cut_chars] at cutting

end Lexeme

theorem segments_eq_map_cut (line : List Char) : segments line = (Lexeme.cut line).map Lexeme.chars :=
  (Lexeme.segmentation_cut line).segments_eq

namespace Lexeme

/-- The lexeme with a text, by its first glyph. -/
def ofText : List Char → Lexeme
  | [] => .blanks []
  | c :: w =>
    match Glyph.kind c with
    | .digit => .digits (c :: w)
    | .blank => .blanks (c :: w)
    | .sign | .paren | .symbol | .foreign => .glyph c

theorem ofText_chars {l : Lexeme} (uniform : l.Uniform) (lone : l.Lone) : ofText l.chars = l := by
  cases l with
  | digits run =>
    obtain ⟨c, w, rfl⟩ := List.exists_cons_of_ne_nil uniform.1
    simp only [chars, ofText, uniform.2 c List.mem_cons_self]
  | blanks run =>
    obtain ⟨c, w, rfl⟩ := List.exists_cons_of_ne_nil uniform.1
    simp only [chars, ofText, uniform.2 c List.mem_cons_self]
  | glyph c =>
    obtain ⟨noDigit, noBlank⟩ := lone
    simp only [chars, ofText]
    split
    · next hdigit => exact absurd hdigit noDigit
    · next hblank => exact absurd hblank noBlank
    all_goals rfl

/-- There is one way to cut a line. -/
theorem Cutting.cut_eq {ls : List Lexeme} (h : Cutting ls) : cut (ls.flatMap chars) = ls := by
  have texts : ∀ {ms : List Lexeme}, Cutting ms → (ms.map chars).map ofText = ms := by
    intro ms hms
    have same : ∀ l ∈ ms, (ofText ∘ chars) l = id l := fun l hl => ofText_chars (hms.uniform l hl) (hms.lone l hl)
    rw [List.map_map, List.map_congr_left same, List.map_id]
  rw [← texts (cutting_cut _), ← segments_eq_map_cut, h.segmentation.segments_eq, texts h]

theorem Cutting.of_isInfix {ls ms : List Lexeme} (h : Cutting ls) (hms : ms <:+: ls) : Cutting ms :=
  ⟨fun l hl => h.uniform l (hms.mem hl), fun l hl => h.lone l (hms.mem hl), h.apart.infix hms⟩

end Lexeme

theorem segments_eq_iff {line : List Char} {ws : List (List Char)} : segments line = ws ↔ Segmentation line ws :=
  ⟨fun h => h ▸ segments_eq_map_cut line ▸ Lexeme.segmentation_cut line, Segmentation.segments_eq⟩

/-! ### Places -/

/-- Places texts one behind another from an offset on. -/
def placed : Nat → List (List Char) → List (Located (List Char))
  | _, [] => []
  | start, w :: rest =>
    ⟨w, ⟨start, start + (String.ofList w).utf8ByteSize⟩⟩ :: placed (start + (String.ofList w).utf8ByteSize) rest

/-- Spans that follow one another from one offset to another, none of them empty. -/
def Tiles {α : Type} : Nat → Nat → List (Located α) → Prop
  | start, stop, [] => start = stop
  | start, stop, x :: rest => x.span.start = start ∧ start < x.span.stop ∧ Tiles x.span.stop stop rest

theorem utf8ByteSize_ofList_cons (c : Char) (w : List Char) :
    (String.ofList (c :: w)).utf8ByteSize = c.utf8Size + (String.ofList w).utf8ByteSize := by
  rw [← List.singleton_append, String.ofList_append, String.utf8ByteSize_append, ← String.singleton_eq_ofList,
    String.utf8ByteSize_singleton]

theorem utf8ByteSize_ofList_pos {w : List Char} (h : w ≠ []) : 0 < (String.ofList w).utf8ByteSize := by
  obtain ⟨c, w, rfl⟩ := List.exists_cons_of_ne_nil h
  rw [utf8ByteSize_ofList_cons]
  exact Nat.lt_of_lt_of_le c.utf8Size_pos (Nat.le_add_right _ _)

theorem Lexeme.size_eq (l : Lexeme) : l.size = (String.ofList l.chars).utf8ByteSize := by
  unfold Lexeme.size
  induction l.chars with
  | nil => rfl
  | cons c w ih => rw [List.foldr_cons, ih, utf8ByteSize_ofList_cons]

theorem map_chars_place (start : Nat) (ls : List Lexeme) :
    (Lexeme.place start ls).map (Located.map Lexeme.chars) = placed start (ls.map Lexeme.chars) := by
  induction ls generalizing start with
  | nil => rfl
  | cons l ls ih =>
    rw [Lexeme.place, List.map_cons, ih, List.map_cons, placed, ← Lexeme.size_eq]
    rfl

theorem map_value_placed (start : Nat) (ws : List (List Char)) : (placed start ws).map (·.value) = ws := by
  induction ws generalizing start with
  | nil => rfl
  | cons w ws ih => rw [placed, List.map_cons, ih]

theorem tiles_placed {ws : List (List Char)} (h : ∀ w ∈ ws, w ≠ []) (start : Nat) :
    Tiles start (start + (String.ofList ws.flatten).utf8ByteSize) (placed start ws) := by
  induction ws generalizing start with
  | nil => rfl
  | cons w ws ih =>
    obtain ⟨hw, hws⟩ := List.forall_mem_cons.mp h
    refine ⟨rfl, Nat.lt_add_of_pos_right (utf8ByteSize_ofList_pos hw), ?_⟩
    rw [List.flatten_cons, String.ofList_append, String.utf8ByteSize_append, ← Nat.add_assoc]
    exact ih hws _

/-- The bytes at the place of a text are the text's. -/
theorem extract_placed {ws : List (List Char)} {w : Located (List Char)} (front : String)
    (h : w ∈ placed front.utf8ByteSize ws) :
    (front ++ String.ofList ws.flatten).toByteArray.extract w.span.start w.span.stop =
      (String.ofList w.value).toByteArray := by
  induction ws generalizing front with
  | nil => cases h
  | cons v ws ih =>
    rw [List.flatten_cons, String.ofList_append]
    rcases List.mem_cons.mp h with rfl | h
    · rw [String.toByteArray_append, String.toByteArray_append]
      exact ByteArray.extract_append_size_add (i := 0).trans (ByteArray.extract_append_eq_left rfl)
    · rw [← String.append_assoc]
      rw [← String.utf8ByteSize_append] at h
      exact ih _ h

/-! ### The tokens of segments -/

/-- A text is read as a token: a run of digits as its value in decimal, a run of blanks as one blank, and a glyph that
    stands alone as the token that its kind calls for. -/
inductive ReadAs : List Char → Token → Prop
  | integer {w : List Char} (digits : IsRun .digit w) (fits : Nat.ofDigitChars 10 w 0 ≤ Word.greatestSigned) :
    ReadAs w (.integer (Nat.ofDigitChars 10 w 0))
  | blank {w : List Char} (blanks : IsRun .blank w) : ReadAs w .blank
  | single {c : Char} {t : Token} (calls : Glyph.token? c = some t) : ReadAs [c] t

namespace Lexeme

theorem single_of_kind {c : Char} (noSign : Glyph.kind c ≠ .sign) (noParen : Glyph.kind c ≠ .paren) :
    single c = ((Symbol.ofGlyph c).mapError Fault.foreignGlyph).map Token.symbol := by
  obtain ⟨hp, hm⟩ := not_or.mp (Glyph.kind_eq_sign_iff.not.mp noSign)
  obtain ⟨hl, hr⟩ := not_or.mp (Glyph.kind_eq_paren_iff.not.mp noParen)
  rw [single, if_neg hp, if_neg hm, if_neg hl, if_neg hr]
  cases Symbol.ofGlyph c <;> rfl

theorem single_eq_ok_iff {c : Char} {t : Token} : single c = .ok t ↔ Glyph.token? c = some t := by
  have noToken : Glyph.kind c ≠ .sign → Glyph.kind c ≠ .paren → Glyph.kind c ≠ .symbol → single c ≠ .ok t :=
    fun noSign noParen noSymbol h => by
      rw [single_of_kind noSign noParen] at h
      cases hs : Symbol.ofGlyph c with
      | ok s => exact noSymbol (Symbol.ofGlyph_eq_ok_iff.mp hs ▸ s.kind_eq)
      | error why =>
        rw [hs] at h
        cases h
  unfold Glyph.token?
  split
  · next hk => rcases Glyph.kind_eq_sign_iff.mp hk with rfl | rfl <;> simp [single]
  · next hk => rcases Glyph.kind_eq_paren_iff.mp hk with rfl | rfl <;> simp [single]
  · next hk =>
    have hs : Symbol.ofGlyph c = .ok ⟨c, hk⟩ := Symbol.ofGlyph_glyph ⟨c, hk⟩
    have noSign : Glyph.kind c ≠ .sign := by simp [hk]
    have noParen : Glyph.kind c ≠ .paren := by simp [hk]
    rw [single_of_kind noSign noParen, hs]
    simp [Except.map, Except.mapError]
  all_goals
    next hk => simpa using noToken (by simp [hk]) (by simp [hk]) (by simp [hk])

theorem readAs {l : Lexeme} {t : Token} (uniform : l.Uniform) (h : l.token = .ok t) : ReadAs l.chars t := by
  cases l with
  | digits run =>
    simp only [token, integer] at h
    split at h
    · cases h
    split at h
    · next fits =>
      cases h
      exact .integer uniform fits
    · cases h
  | blanks run =>
    cases h
    exact .blank uniform
  | glyph c => exact .single (single_eq_ok_iff.mp h)

end Lexeme

/-! ### Lines -/

/-- The tokens are read from the segments of the line, each at the place of its own. -/
structure Segmented (line : String) (ts : List (Located Token)) : Prop where
  segments_eq_iff : ∀ ws, segments line.toList = ws ↔ Segmentation line.toList ws
  tokens : List.Forall₂ (fun w t => ReadAs w t.value ∧
    line.toByteArray.extract t.span.start t.span.stop = (String.ofList w).toByteArray) (segments line.toList) ts
  tiles : Tiles 0 line.utf8ByteSize ts

theorem Tiles.of_forall₂ {α β : Type} {xs : List (Located α)} {ys : List (Located β)}
    (h : List.Forall₂ (fun x y => y.span = x.span) xs ys) :
    ∀ {start stop : Nat}, Tiles start stop xs → Tiles start stop ys := by
  induction h with
  | nil => exact id
  | cons hx _ ih => exact fun ⟨h₁, h₂, h₃⟩ => ⟨hx ▸ h₁, hx ▸ h₂, ih (hx ▸ h₃)⟩

theorem forall₂_placed_of_ofChars {line : List Char} {ts : List (Located Token)} (h : Token.ofChars line = .ok ts) :
    List.Forall₂ (fun w t => ReadAs w.value t.value ∧ t.span = w.span) (placed 0 (segments line)) ts := by
  -- Over the lexemes, which are the segments, each lexeme has its token already.
  rw [segments_eq_map_cut, ← map_chars_place, List.forall₂_map_left_iff]
  have uniform : ∀ l ∈ Lexeme.place 0 (Lexeme.cut line), l.value.Uniform := fun l hl =>
    Lexeme.cut_uniform line l.value (Lexeme.value_mem_of_mem_place hl)
  exact ((List.forall₂_and_left _ _).mpr ⟨uniform, Token.readFrom_of_ofChars h⟩).imp
    fun l t ⟨hl, hvalue, hspan⟩ => ⟨Lexeme.readAs hl hvalue, hspan⟩

/-- The tokens of a line are read from its segments. -/
theorem segmented_of_ofLine {line : String} {ts : List (Located Token)} (h : Token.ofLine line = .ok ts) :
    Segmented line ts := by
  have hread := forall₂_placed_of_ofChars (Token.ofChars_of_ofLine h)
  have whole : (segments line.toList).flatten = line.toList := List.flatten_splitBy _ _
  have nonempty : ∀ w ∈ segments line.toList, w ≠ [] := fun w hw => List.ne_nil_of_mem_splitBy hw
  refine ⟨fun ws => segments_eq_iff, ?_, ?_⟩
  · rw [← map_value_placed 0 (segments line.toList), List.forall₂_map_left_iff]
    have bytes : ∀ w ∈ placed 0 (segments line.toList),
        line.toByteArray.extract w.span.start w.span.stop = (String.ofList w.value).toByteArray := fun w hw => by
      have hbytes := extract_placed "" hw
      rwa [whole, String.empty_append, String.ofList_toList] at hbytes
    exact ((List.forall₂_and_left _ _).mpr ⟨bytes, hread⟩).imp
      fun w t ⟨hbytes, hvalue, hspan⟩ => ⟨hvalue, hspan ▸ hbytes⟩
  · have htiles := tiles_placed nonempty 0
    rw [whole, String.ofList_toList, Nat.zero_add] at htiles
    exact Tiles.of_forall₂ (hread.imp fun _ _ h => h.2) htiles

/-- A run of digits, a symbol of three bytes, a run of different blanks, and two glyphs that stand for themselves. -/
theorem segmented_of_mixed_runs :
    let line := "10☆\t +("
    let ts : List (Located Token) := [⟨.integer 10, ⟨0, 2⟩⟩, ⟨.symbol ⟨'☆', by decide +kernel⟩, ⟨2, 5⟩⟩,
      ⟨.blank, ⟨5, 7⟩⟩, ⟨.plus, ⟨7, 8⟩⟩, ⟨.leftParen, ⟨8, 9⟩⟩]
    Token.ofLine line = .ok ts ∧ segments line.toList = [['1', '0'], ['☆'], ['\t', ' '], ['+'], ['(']] ∧
      Segmented line ts := by
  intro line ts
  have hread : Token.ofLine line = .ok ts := by decide +kernel
  exact ⟨hread, by decide +kernel, segmented_of_ofLine hread⟩

end Dotwork
