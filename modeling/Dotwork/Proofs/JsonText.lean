import Dotwork.Json.Reader
import Dotwork.Proofs.Lexing
import Mathlib.Data.List.TakeWhile

/-!
# JSON texts are read back

A value is written as words, in a style that puts nothing but blanks between them. A scanner finds these words again,
and a reader makes the value of them: no two values have one text.
-/

namespace Dotwork.Json

/-! ### Values -/

/-- A value that has a text of its own: nothing in it is illegible or kept as it is written. -/
inductive Exact : Json → Prop
  | null : Exact .null
  | bool (b : Bool) : Exact (.bool b)
  | integer (n : Int) : Exact (.integer n)
  | string (s : String) : Exact (.string s)
  | array {items : List Json} (each : ∀ j ∈ items, Exact j) : Exact (.array items)
  | object {members : List (String × Json)} (each : ∀ m ∈ members, Exact m.2) : Exact (.object members)

/-! ### Words -/

/-- What does not go on with a word of letters and digits. -/
def Ends (rest : List Char) : Prop :=
  ∀ c ∈ rest.head?, Scanner.isBare c = false

/-- The characters are scanned as the words, whatever follows. -/
def Closed (cs : List Char) (ws : List Word) : Prop :=
  ∀ done rest, Scanner.run done .between (cs ++ rest) = Scanner.run (ws.reverse ++ done) .between rest

/-- The characters are scanned as the words in front of what does not go on with the last one. -/
def Scans (cs : List Char) (ws : List Word) : Prop :=
  ∀ done rest, Ends rest → Scanner.run done .between (cs ++ rest) = Scanner.run (ws.reverse ++ done) .between rest

section Words
variable {cs cs' : List Char} {ws ws' : List Word} {c : Char}

theorem Ends.append (h : Ends cs) (h' : Ends cs') : Ends (cs ++ cs') := by
  cases cs with
  | nil => exact h'
  | cons c cs => exact h

theorem ends_nil : Ends [] :=
  fun _ h => by cases h

theorem Closed.scans (h : Closed cs ws) : Scans cs ws :=
  fun done rest _ => h done rest

theorem closed_nil : Closed [] [] :=
  fun _ _ => rfl

theorem Closed.append (h : Closed cs ws) (h' : Closed cs' ws') : Closed (cs ++ cs') (ws ++ ws') := by
  intro done rest
  rw [List.append_assoc, h, h', List.reverse_append, List.append_assoc]

theorem Closed.append_scans (h : Closed cs ws) (h' : Scans cs' ws') : Scans (cs ++ cs') (ws ++ ws') := by
  intro done rest ends
  rw [List.append_assoc, h, h' _ _ ends, List.reverse_append, List.append_assoc]

theorem Scans.append (h : Scans cs ws) (ends : Ends cs') (h' : Scans cs' ws') : Scans (cs ++ cs') (ws ++ ws') := by
  intro done rest hrest
  rw [List.append_assoc, h _ _ (ends.append hrest), h' _ _ hrest, List.reverse_append, List.append_assoc]

/-! ### Blanks and marks -/

theorem not_isBare_of_isBlank (h : Scanner.isBlank c = true) : Scanner.isBare c = false := by
  simp only [Scanner.isBlank, Bool.or_eq_true, beq_iff_eq] at h
  rcases h with ((rfl | rfl) | rfl) | rfl <;> rfl

theorem closed_blanks (blank : ∀ c ∈ cs, Scanner.isBlank c = true) : Closed cs [] := by
  induction cs with
  | nil => exact closed_nil
  | cons c cs ih =>
    intro done rest
    rw [List.forall_mem_cons] at blank
    have step : Scanner.step .between c = some (.between, []) := by simp [Scanner.step, Scanner.stepBetween, blank.1]
    rw [List.cons_append, Scanner.run, step]
    exact ih blank.2 done rest

theorem ends_blanks (blank : ∀ c ∈ cs, Scanner.isBlank c = true) : Ends cs :=
  fun c hc => not_isBare_of_isBlank (blank c (List.mem_of_mem_head? hc))

/-- A character that is a word by itself. -/
theorem closed_mark {w : Word} (h : Scanner.step .between c = some (.between, [w])) : Closed [c] [w] := by
  intro done rest
  rw [List.singleton_append, Scanner.run, h]

/-! ### Words of letters and digits -/

theorem run_bare {read : List Char} (done : List Word) (bare : ∀ c ∈ cs, Scanner.isBare c = true) (rest : List Char) :
    Scanner.run done (.bare read) (cs ++ rest) = Scanner.run done (.bare (cs.reverse ++ read)) rest := by
  induction cs generalizing read with
  | nil => rfl
  | cons c cs ih =>
    rw [List.forall_mem_cons] at bare
    have step : Scanner.step (.bare read) c = some (.bare (c :: read), []) := by simp [Scanner.step, bare.1]
    rw [List.cons_append, Scanner.run, step, List.reverse_cons, List.append_assoc]
    exact ih bare.2

/-- A word ends with the text, or in front of a character that does not go on with it. -/
theorem run_bare_end {read : List Char} {value : Json} (done : List Word)
    (hvalue : Scanner.bare? read.reverse = some value) {rest : List Char} (ends : Ends rest) :
    Scanner.run done (.bare read) rest = Scanner.run (.plain value :: done) .between rest := by
  cases rest with
  | nil => simp [Scanner.run, hvalue]
  | cons c rest =>
    -- The character both ends the word and is taken between words.
    have hc : Scanner.isBare c = false := ends c rfl
    simp only [Scanner.run, Scanner.step, hc, hvalue]
    cases Scanner.stepBetween c with
    | none => rfl
    | some next => simp

theorem scans_bare {value : Json} (hne : cs ≠ []) (bare : cs.all Scanner.isBare = true)
    (hvalue : Scanner.bare? cs = some value) : Scans cs [.plain value] := by
  obtain ⟨c, cs, rfl⟩ := List.exists_cons_of_ne_nil hne
  intro done rest ends
  rw [List.all_eq_true, List.forall_mem_cons] at bare
  have blank : Scanner.isBlank c = false := Bool.eq_false_iff.mpr fun h => by
    simp [not_isBare_of_isBlank h] at bare
  have step : Scanner.step .between c = some (.bare [c], []) := by
    simp [Scanner.step, Scanner.stepBetween, blank, bare.1]
  rw [List.cons_append, Scanner.run, step]
  refine (run_bare _ bare.2 rest).trans (run_bare_end _ ?_ ends)
  simpa using hvalue

/-! ### Integers -/

theorem isDigit_of_mem_toDigits {n : Nat} {c : Char} (h : c ∈ Nat.toDigits 10 n) : c.isDigit = true :=
  Nat.isDigit_of_mem_toDigits (by decide) (by decide) h

theorem head?_toDigits_ne_minus (n : Nat) : (Nat.toDigits 10 n).head? ≠ some '-' := fun h =>
  absurd (isDigit_of_mem_toDigits (List.mem_of_mem_head? h)) (by decide)

theorem not_leading_zero (n : Nat) :
    (decide (1 < (Nat.toDigits 10 n).length) && (Nat.toDigits 10 n).head? == some '0') = false := by
  rw [Bool.eq_false_iff]
  intro h
  simp only [Bool.and_eq_true, decide_eq_true_eq, beq_iff_eq] at h
  obtain rfl := Token.eq_zero_of_head?_toDigits h.2
  simp at h

theorem number?_chars (n : Int) : Scanner.number? (Decimal.chars n) = some (.integer n) := by
  have whole : (Nat.toDigits 10 n.natAbs).takeWhile Char.isDigit = Nat.toDigits 10 n.natAbs :=
    List.takeWhile_eq_self_iff.mpr fun c hc => isDigit_of_mem_toDigits hc
  have tail : (Nat.toDigits 10 n.natAbs).dropWhile Char.isDigit = [] :=
    List.dropWhile_eq_nil_iff.mpr fun c hc => isDigit_of_mem_toDigits hc
  have empty : (Nat.toDigits 10 n.natAbs).isEmpty = false := List.isEmpty_eq_false_iff.mpr Nat.toDigits_ne_nil
  unfold Decimal.chars
  split
  · next neg =>
    have value : -(n.natAbs : Int) = n := by omega
    have nonzero : n.natAbs ≠ 0 := by omega
    simp only [Scanner.number?, List.head?_cons, beq_self_eq_true, ↓reduceIte, List.drop_succ_cons, List.drop_zero,
      whole, tail, empty, not_leading_zero, Nat.ofDigitChars_ten_toDigits, value]
    simp [Scanner.isTail, nonzero]
  · next nonneg =>
    have value : (n.natAbs : Int) = n := by omega
    have first : ((Nat.toDigits 10 n.natAbs).head? == some '-') = false :=
      beq_false_of_ne (head?_toDigits_ne_minus n.natAbs)
    simp only [Scanner.number?, first, Bool.false_eq_true, ↓reduceIte, whole, tail, empty, not_leading_zero,
      Nat.ofDigitChars_ten_toDigits, value]
    simp [Scanner.isTail]

theorem bare?_chars (n : Int) : Scanner.bare? (Decimal.chars n) = some (.integer n) := by
  -- None of the three words with a meaning of their own begins like a number.
  have letter : ∀ c cs, c.isDigit = false → c ≠ '-' → Decimal.chars n ≠ c :: cs := by
    intro c cs digit minus h
    unfold Decimal.chars at h
    split at h
    · exact minus (List.head_eq_of_cons_eq h).symm
    · have : c.isDigit = true := isDigit_of_mem_toDigits (n := n.natAbs) (by simp [h])
      simp [digit] at this
  rw [Scanner.bare?, if_neg (letter _ _ rfl (by decide)), if_neg (letter _ _ rfl (by decide)),
    if_neg (letter _ _ rfl (by decide)), number?_chars]

theorem scans_integer (n : Int) : Scans (Decimal.chars n) [.plain (.integer n)] := by
  have digits : ∀ c ∈ Nat.toDigits 10 n.natAbs, Scanner.isBare c = true := fun c hc => by
    simp [Scanner.isBare, Char.isAlphanum, isDigit_of_mem_toDigits hc]
  refine scans_bare ?_ (List.all_eq_true.mpr ?_) (bare?_chars n)
  · unfold Decimal.chars
    split
    · exact List.cons_ne_nil _ _
    · exact Nat.toDigits_ne_nil
  · unfold Decimal.chars
    split
    · exact List.forall_mem_cons.mpr ⟨rfl, digits⟩
    · exact digits

/-! ### Strings -/

theorem value_read (cs : List Char) : Scanner.Content.value (cs.map some).reverse = .string (String.ofList cs) := by
  have all : (cs.map some).mapM id = some cs := by
    induction cs with
    | nil => rfl
    | cons c cs ih => simp [ih]
  rw [Scanner.Content.value, List.reverse_reverse, all]

/-- The code of a character below the space is two zeros and two digits. -/
theorem hexEscape_eq {c : Char} (h : c.toNat < 0x20) :
    hexEscape c = ['\\', 'u', '0', '0', Nat.digitChar (c.toNat / 16), Nat.digitChar (c.toNat % 16)] := by
  have all : ∀ n < 0x20, hexEscape (Char.ofNat n) =
      ['\\', 'u', '0', '0', Nat.digitChar (n / 16), Nat.digitChar (n % 16)] := by decide
  simpa using all c.toNat h

theorem hexDigit?_digitChar : ∀ d < 16, Scanner.hexDigit? (Nat.digitChar d) = some d := by
  decide

/-- The digits of an escape up to the third one. -/
theorem step_hex {read : Scanner.Content} {digits : List Nat} {d : Nat} (hd : d < 16) (room : digits.length < 3) :
    Scanner.step (.hex read none digits) (Nat.digitChar d) = some (.hex read none (digits ++ [d]), []) := by
  simp [Scanner.step, hexDigit?_digitChar d hd]
  omega

/-- The four digits of a control character stand for it. -/
theorem step_last_hex {read : Scanner.Content} {c : Char} (h : c.toNat < 0x20) :
    Scanner.step (.hex read none [0, 0, c.toNat / 16]) (Nat.digitChar (c.toNat % 16)) =
      some (.string (some c :: read), []) := by
  have code : 16 * (c.toNat / 16) + c.toNat % 16 = c.toNat := Nat.div_add_mod _ _
  have low : ¬(0xD800 ≤ c.toNat ∧ c.toNat < 0xDC00) := by omega
  have high : ¬(0xDC00 ≤ c.toNat ∧ c.toNat < 0xE000) := by omega
  simp [Scanner.step, hexDigit?_digitChar _ (Nat.mod_lt _ (by decide)), Scanner.closeHex, Scanner.beginPair, code, low,
    high]

theorem run_hexEscape (read : Scanner.Content) {c : Char} (h : c.toNat < 0x20) (done : List Word) (rest : List Char) :
    Scanner.run done (.string read) (hexEscape c ++ rest) = Scanner.run done (.string (some c :: read)) rest := by
  have opens : Scanner.step (.string read) '\\' = some (.escape read, []) := rfl
  have hex : Scanner.step (.escape read) 'u' = some (.hex read none [], []) := rfl
  have first : Scanner.step (.hex read none []) '0' = some (.hex read none [0], []) := rfl
  have second : Scanner.step (.hex read none [0]) '0' = some (.hex read none [0, 0], []) := rfl
  have third : Scanner.step (.hex read none [0, 0]) (Nat.digitChar (c.toNat / 16)) =
      some (.hex read none [0, 0, c.toNat / 16], []) := step_hex (by omega) (by decide)
  simp only [hexEscape_eq h, List.cons_append, Scanner.run, opens, hex, first, second, third, step_last_hex h]
  rfl

theorem run_escape (read : Scanner.Content) (c : Char) (done : List Word) (rest : List Char) :
    Scanner.run done (.string read) (escape c ++ rest) = Scanner.run done (.string (some c :: read)) rest := by
  unfold escape
  split_ifs with quote backslash backspace feed line carriage tab control
  · rw [quote]; rfl
  · rw [backslash]; rfl
  · rw [backspace]; rfl
  · rw [feed]; rfl
  · rw [line]; rfl
  · rw [carriage]; rfl
  · rw [tab]; rfl
  · exact run_hexEscape read control done rest
  · have step : Scanner.step (.string read) c = some (.string (some c :: read), []) := by
      simp [Scanner.step, Scanner.stepString, quote, backslash, control]
    simp [Scanner.run, step]

theorem run_string (read : Scanner.Content) (cs : List Char) (done : List Word) (rest : List Char) :
    Scanner.run done (.string read) (cs.flatMap escape ++ rest) =
      Scanner.run done (.string ((cs.map some).reverse ++ read)) rest := by
  induction cs generalizing read with
  | nil => rfl
  | cons c cs ih =>
    rw [List.flatMap_cons, List.append_assoc, run_escape, ih]
    simp

theorem closed_quote (s : String) : Closed (quote s).toList [.plain (.string s)] := by
  intro done rest
  have step : Scanner.step .between '"' = some (.string [], []) := rfl
  have last : Scanner.step (.string (s.toList.map some).reverse) '"' =
      some (.between, [.plain (.string s)]) := by
    simp [Scanner.step, Scanner.stepString, value_read]
  have text : (quote s).toList ++ rest = '"' :: (s.toList.flatMap escape ++ '"' :: rest) := by
    simp [quote]
  rw [text, Scanner.run, step]
  dsimp only
  rw [run_string, List.append_nil, Scanner.run, last]
  rfl

end Words

/-! ### Styles -/

/-- What a style puts between words is blank, but for the comma and the colon. -/
structure Style.Sets (style : Style) : Prop where
  first : ∀ depth, ∀ c ∈ (style.first depth).toList, Scanner.isBlank c = true
  next : ∀ depth, ∃ blanks, (style.next depth).toList = ',' :: blanks ∧ ∀ c ∈ blanks, Scanner.isBlank c = true
  last : ∀ depth, ∀ c ∈ (style.last depth).toList, Scanner.isBlank c = true
  colon : ∃ blanks, style.colon.toList = ':' :: blanks ∧ ∀ c ∈ blanks, Scanner.isBlank c = true

theorem blank_indent (depth : Nat) : ∀ c ∈ (indent depth).toList, Scanner.isBlank c = true := by
  intro c hc
  rw [indent, String.toList_ofList] at hc
  rcases List.mem_cons.mp hc with rfl | hc
  · rfl
  · rw [List.eq_of_mem_replicate hc]
    rfl

theorem sets_tall : Style.Sets .tall where
  first := blank_indent
  next depth := ⟨(indent depth).toList, String.toList_append, blank_indent depth⟩
  last depth := blank_indent (depth - 1)
  colon := ⟨[' '], rfl, List.all_eq_true.mp rfl⟩

section Style
variable {style : Style} (sets : style.Sets)
include sets

theorem Style.Sets.closed_next (depth : Nat) :
    Closed (style.next depth).toList [.comma] ∧ ∀ rest, Ends ((style.next depth).toList ++ rest) := by
  obtain ⟨blanks, text, blank⟩ := sets.next depth
  rw [text]
  exact ⟨(closed_mark (c := ',') rfl).append (closed_blanks blank), fun rest c hc => by cases hc; rfl⟩

theorem Style.Sets.closed_colon : Closed style.colon.toList [.colon] := by
  obtain ⟨blanks, text, blank⟩ := sets.colon
  rw [text]
  exact (closed_mark (c := ':') rfl).append (closed_blanks blank)

/-- A container with something in it: `cs` is its first entry and `cs'` are the others, each behind a comma. -/
theorem Style.Sets.scans_container (depth : Nat) (opening closing : Char) {w w' : Word} {cs cs' : List Char}
    {ws ws' : List Word} (opens : Scanner.step .between opening = some (.between, [w]))
    (closes : Scanner.step .between closing = some (.between, [w'])) (bare : Scanner.isBare closing = false)
    (scans : Scans cs ws) (ends : Ends cs') (scans' : Scans cs' ws') :
    Scans ([opening] ++ ((style.first depth).toList ++ (cs ++ (cs' ++ ((style.last depth).toList ++ [closing])))))
      (w :: (ws ++ (ws' ++ [w']))) := by
  have last : Closed ((style.last depth).toList ++ [closing]) [w'] :=
    (closed_blanks (sets.last depth)).append (closed_mark closes)
  have endsLast : Ends ((style.last depth).toList ++ [closing]) :=
    (ends_blanks (sets.last depth)).append fun c hc => by cases hc; exact bare
  have entries := scans.append (ends.append endsLast) (scans'.append endsLast last.scans)
  exact (closed_mark opens).append_scans ((closed_blanks (sets.first depth)).append_scans entries)

end Style

/-! ### Reading -/

/-- A reader takes the words as the value wherever one may come next. -/
structure Reads (ws : List Word) (j : Json) : Prop where
  value : ∀ frames, ws.foldlM Reader.step ⟨frames, .value⟩ = some (Reader.put j frames)
  first : ∀ frames, ws.foldlM Reader.step ⟨frames, .valueOrEnd⟩ = some (Reader.put j frames)

/-- Behind any text a value adds characters that are scanned and read as the value. -/
def Spelled (style : Style) (j : Json) : Prop :=
  ∀ depth text, ∃ cs ws, (j.append style depth text).toList = text.toList ++ cs ∧ Scans cs ws ∧ Reads ws j

theorem reads_plain (j : Json) : Reads [.plain j] j :=
  ⟨fun _ => rfl, fun _ => rfl⟩

theorem spelled_leaf {style : Style} {j : Json} (text : ∀ depth text, j.append style depth text = text ++ j.leaf)
    (scans : Scans j.leaf.toList [.plain j]) : Spelled style j := fun depth before =>
  ⟨j.leaf.toList, [.plain j], by rw [text, String.toList_append], scans, reads_plain j⟩

theorem objectOf_members (members : List (String × Json)) :
    Reader.objectOf (members.map fun m => (some m.1, m.2)).reverse = .object members := by
  have all : (members.map fun m => (some m.1, m.2)).mapM (fun e : Option String × Json => e.1.map (·, e.2)) =
      some members := by
    induction members with
    | nil => rfl
    | cons m members ih => simp [ih]
  rw [Reader.objectOf, List.reverse_reverse]
  split
  · next found h => rw [Option.some.inj (all.symm.trans h)]
  · next h => cases all.symm.trans h

section Containers
variable {style : Style} (sets : style.Sets) {items : List Json} {members : List (String × Json)}
include sets

/-- Items that follow another one: each adds a comma and itself, and goes to the array that is open. -/
theorem spelled_items (each : ∀ j ∈ items, Spelled style j) (depth : Nat) (text : String) :
    ∃ cs ws, (appendItems style depth text items).toList = text.toList ++ cs ∧ Ends cs ∧ Scans cs ws ∧
      ∀ done frames, ws.foldlM Reader.step ⟨.array done :: frames, .commaOrEnd⟩ =
        some ⟨.array (items.reverse ++ done) :: frames, .commaOrEnd⟩ := by
  induction items generalizing text with
  | nil => exact ⟨[], [], by simp [appendItems], ends_nil, closed_nil.scans, fun _ _ => rfl⟩
  | cons item items ih =>
    rw [List.forall_mem_cons] at each
    obtain ⟨cs, ws, text₁, scans, reads⟩ := each.1 depth (text ++ style.next depth)
    obtain ⟨cs', ws', text₂, ends', scans', reads'⟩ := ih each.2 (item.append style depth (text ++ style.next depth))
    obtain ⟨comma, ends⟩ := sets.closed_next depth
    refine ⟨(style.next depth).toList ++ (cs ++ cs'), [.comma] ++ (ws ++ ws'), ?_, ends _, ?_, fun done frames => ?_⟩
    · rw [appendItems, text₂, text₁, String.toList_append]
      simp
    · exact comma.append_scans (scans.append ends' scans')
    · have first : Reader.step ⟨.array done :: frames, .commaOrEnd⟩ .comma = some ⟨.array done :: frames, .value⟩ := rfl
      rw [List.singleton_append, List.foldlM_cons, first]
      simp [List.foldlM_append, reads.value, Reader.put, reads']

theorem spelled_member (key : String) {j : Json} (h : Spelled style j) (depth : Nat) (text : String) :
    ∃ cs ws, (appendMember style depth text (key, j)).toList = text.toList ++ cs ∧ Scans cs ws ∧
      ∀ stage, stage = .key ∨ stage = .keyOrEnd → ∀ done last frames,
        ws.foldlM Reader.step ⟨.object done last :: frames, stage⟩ =
          some ⟨.object ((some key, j) :: done) (some key) :: frames, .commaOrEnd⟩ := by
  obtain ⟨cs, ws, text', scans, reads⟩ := h depth (text ++ quote key ++ style.colon)
  refine ⟨(quote key).toList ++ (style.colon.toList ++ cs), [.plain (.string key)] ++ ([.colon] ++ ws), ?_, ?_, ?_⟩
  · rw [appendMember, text', String.toList_append, String.toList_append]
    simp
  · exact (closed_quote key).append_scans (sets.closed_colon.append_scans scans)
  · intro stage hstage done last frames
    have first : Reader.step ⟨.object done last :: frames, stage⟩ (.plain (.string key)) =
        some ⟨.object done (some key) :: frames, .colon⟩ := by rcases hstage with rfl | rfl <;> rfl
    have second : Reader.step ⟨.object done (some key) :: frames, .colon⟩ .colon =
        some ⟨.object done (some key) :: frames, .value⟩ := rfl
    simp [first, second, reads.value, Reader.put]

/-- Members that follow another one. A reader keeps them all, in their order, also where two have one key. -/
theorem spelled_members (each : ∀ m ∈ members, Spelled style m.2) (depth : Nat) (text : String) :
    ∃ cs ws, (appendMembers style depth text members).toList = text.toList ++ cs ∧ Ends cs ∧ Scans cs ws ∧
      ∀ done key frames, ∃ key', ws.foldlM Reader.step ⟨.object done key :: frames, .commaOrEnd⟩ =
        some ⟨.object ((members.map fun m => (some m.1, m.2)).reverse ++ done) key' :: frames, .commaOrEnd⟩ := by
  induction members generalizing text with
  | nil => exact ⟨[], [], by simp [appendMembers], ends_nil, closed_nil.scans, fun _ key _ => ⟨key, rfl⟩⟩
  | cons member members ih =>
    rw [List.forall_mem_cons] at each
    obtain ⟨cs, ws, text₁, scans, reads⟩ := spelled_member sets member.1 each.1 depth (text ++ style.next depth)
    obtain ⟨cs', ws', text₂, ends', scans', reads'⟩ :=
      ih each.2 (appendMember style depth (text ++ style.next depth) member)
    obtain ⟨comma, ends⟩ := sets.closed_next depth
    refine ⟨(style.next depth).toList ++ (cs ++ cs'), [.comma] ++ (ws ++ ws'), ?_, ends _, ?_,
      fun done key frames => ?_⟩
    · rw [appendMembers, text₂, text₁, String.toList_append]
      simp
    · exact comma.append_scans (scans.append ends' scans')
    · have first : Reader.step ⟨.object done key :: frames, .commaOrEnd⟩ .comma =
          some ⟨.object done key :: frames, .key⟩ := rfl
      obtain ⟨key', last⟩ := reads' ((some member.1, member.2) :: done) (some member.1) frames
      refine ⟨key', ?_⟩
      simp [List.foldlM_append, first, reads .key (Or.inl rfl), last]

theorem spelled_array (each : ∀ j ∈ items, Spelled style j) : Spelled style (.array items) := by
  intro depth text
  cases items with
  | nil =>
    have scans : Closed (['['] ++ [']']) ([.leftBracket] ++ [.rightBracket]) :=
      (closed_mark rfl).append (closed_mark rfl)
    refine ⟨_, _, ?_, scans.scans, ?_⟩
    · rw [append, leaf, String.toList_append]
      simp
    · exact ⟨fun _ => rfl, fun _ => rfl⟩
  | cons item items =>
    rw [List.forall_mem_cons] at each
    obtain ⟨cs, ws, text₁, scans, reads⟩ := each.1 (depth + 1) (text ++ "[" ++ style.first (depth + 1))
    obtain ⟨cs', ws', text₂, ends', scans', reads'⟩ := spelled_items sets each.2 (depth + 1)
      (item.append style (depth + 1) (text ++ "[" ++ style.first (depth + 1)))
    have container : Scans _ (.leftBracket :: (ws ++ (ws' ++ [.rightBracket]))) :=
      sets.scans_container (depth + 1) '[' ']' rfl rfl rfl scans ends' scans'
    refine ⟨_, _, ?_, container, ?_⟩
    · simp only [append, String.toList_append, text₂, text₁]
      simp
    · have read : ∀ frames, (ws ++ (ws' ++ [Word.rightBracket])).foldlM Reader.step
          ⟨.array [] :: frames, .valueOrEnd⟩ = some (Reader.put (.array (item :: items)) frames) := by
        intro frames
        have closes : Reader.step ⟨.array (items.reverse ++ [item]) :: frames, .commaOrEnd⟩ .rightBracket =
            some (Reader.put (.array (items.reverse ++ [item]).reverse) frames) := rfl
        have first : Reader.put item (.array [] :: frames) = ⟨.array [item] :: frames, .commaOrEnd⟩ := rfl
        rw [List.foldlM_append, reads.first, first, Option.bind_eq_bind, Option.bind_some, List.foldlM_append, reads']
        simp [closes]
      exact ⟨read, read⟩

theorem spelled_object (each : ∀ m ∈ members, Spelled style m.2) : Spelled style (.object members) := by
  intro depth text
  cases members with
  | nil =>
    have scans : Closed (['\x7b'] ++ ['\x7d']) ([.leftBrace] ++ [.rightBrace]) :=
      (closed_mark rfl).append (closed_mark rfl)
    refine ⟨_, _, ?_, scans.scans, ?_⟩
    · rw [append, leaf, String.toList_append]
      simp
    · exact ⟨fun _ => rfl, fun _ => rfl⟩
  | cons member members =>
    rw [List.forall_mem_cons] at each
    obtain ⟨cs, ws, text₁, scans, reads⟩ := spelled_member sets member.1 each.1 (depth + 1)
      (text ++ "\x7b" ++ style.first (depth + 1))
    obtain ⟨cs', ws', text₂, ends', scans', reads'⟩ := spelled_members sets each.2 (depth + 1)
      (appendMember style (depth + 1) (text ++ "\x7b" ++ style.first (depth + 1)) member)
    have container : Scans _ (.leftBrace :: (ws ++ (ws' ++ [.rightBrace]))) :=
      sets.scans_container (depth + 1) '\x7b' '\x7d' rfl rfl rfl scans ends' scans'
    refine ⟨_, _, ?_, container, ?_⟩
    · simp only [append, String.toList_append, text₂, text₁]
      simp
    · have read : ∀ frames, (ws ++ (ws' ++ [Word.rightBrace])).foldlM Reader.step
          ⟨.object [] none :: frames, .keyOrEnd⟩ = some (Reader.put (.object (member :: members)) frames) := by
        intro frames
        obtain ⟨key, last⟩ := reads' [(some member.1, member.2)] (some member.1) frames
        have all := objectOf_members (member :: members)
        rw [List.map_cons, List.reverse_cons] at all
        simp only [List.foldlM_append, reads .keyOrEnd (Or.inr rfl), Option.bind_eq_bind, Option.bind_some, last]
        exact congrArg (fun j => some (Reader.put j frames)) all
      exact ⟨read, read⟩

end Containers

theorem Exact.spelled {style : Style} (sets : style.Sets) {j : Json} (h : j.Exact) : Spelled style j := by
  induction h with
  | null => exact spelled_leaf (fun _ _ => by rw [append]) (scans_bare (by decide) rfl rfl)
  | bool b =>
    cases b with
    | false => exact spelled_leaf (fun _ _ => by rw [append]) (scans_bare (by decide) rfl rfl)
    | true => exact spelled_leaf (fun _ _ => by rw [append]) (scans_bare (by decide) rfl rfl)
  | integer n =>
    refine spelled_leaf (fun _ _ => by rw [append]) ?_
    rw [leaf, String.toList_ofList]
    exact scans_integer n
  | string s => exact spelled_leaf (fun _ _ => by rw [append]) (closed_quote s).scans
  | array each ih => exact spelled_array sets ih
  | object each ih => exact spelled_object sets ih

/-- A value is read off its text. -/
theorem Exact.ofText?_append {style : Style} (sets : style.Sets) {j : Json} (h : j.Exact) :
    ofText? (j.append style 0 "") = some j := by
  obtain ⟨cs, ws, text, scans, reads⟩ := h.spelled sets 0 ""
  have words : words? (j.append style 0 "") = some ws := by
    have run := scans [] [] ends_nil
    rw [List.append_nil, List.append_nil] at run
    rw [words?, text, String.toList_empty, List.nil_append, run]
    simp [Scanner.run]
  simp [ofText?, words, reads.value, Reader.put]

theorem Exact.ofText?_tall {j : Json} (h : j.Exact) : ofText? j.tall = some j :=
  h.ofText?_append sets_tall

end Dotwork.Json
