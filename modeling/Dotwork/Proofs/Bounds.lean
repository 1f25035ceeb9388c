import Dotwork.Proofs.Limits

/-!
# Reading any tokens

What holds of a reader whatever tokens it is given, also such as no line has: the counts that it may negate are signed
words, no more groups are open than may be, and a fault names none but the tokens that are there. So the label of a
fault is found without a look beyond them, and what is read has counts and magnitudes in range.
-/

namespace Dotwork

/-! ### Rows in range -/

/-- The magnitude is a signed word, and so is its opposite. -/
def Head.InRange (h : Head) : Prop :=
  ∀ m, h.magnitude = some m → m.value.natAbs ≤ Word.greatestSigned

/-- At every level counts and magnitudes are signed words, and so are their opposites. -/
def Row.InRange : Row → Prop
  | .nil => True
  | .cluster c _ rest => c.count.natAbs ≤ Word.greatestSigned ∧ rest.InRange
  | .group h body _ rest => h.InRange ∧ body.InRange ∧ rest.InRange

def Term.InRange : Term → Prop
  | .cluster c => c.count.natAbs ≤ Word.greatestSigned
  | .group h body => h.InRange ∧ body.InRange

theorem Row.inRange_ofList {entries : List Entry} : (ofList entries).InRange ↔ ∀ e ∈ entries, e.term.InRange := by
  induction entries with
  | nil => exact iff_of_true trivial fun e he => by cases he
  | cons e rest ih =>
    rw [List.forall_mem_cons, ← ih]
    obtain ⟨_ | _, _⟩ := e
    · exact Iff.rfl
    · exact and_assoc.symm

namespace Row.Reader

/-! ### What a reader holds -/

/-- A beginning stands among the tokens that were taken, and its count is a signed word. -/
structure Lead.Sound (position : Nat) (l : Lead) : Prop where
  position : l.position ≤ position
  count : ∀ n, l.count = some n → n.value ≤ Word.greatestSigned

def Stand.Sound (position : Nat) : Stand → Prop
  | .fresh => True
  | .lead l => l.Sound position
  | .behind t | .behindBlank t _ | .behindPlus t _ | .behindPlusBlank t _ => t.InRange

structure Frame.Sound (position : Nat) (f : Frame) : Prop where
  position : f.position ≤ position
  magnitude : ∀ m, f.magnitude = some m → m.value.natAbs ≤ Word.greatestSigned
  before : ∀ e ∈ f.before, e.term.InRange

/-- The open groups stand among the tokens that were taken, and what is finished is in range. -/
structure State.Kept (position : Nat) (s : State) : Prop where
  frames : ∀ f ∈ s.frames, f.Sound position
  done : ∀ e ∈ s.done, e.term.InRange

/-- So it is with what a reader holds that has taken `position` tokens. -/
structure State.Sound (position : Nat) (s : State) : Prop extends s.Kept position where
  stand : s.stand.Sound position

section Step
variable {limit position : Nat} {s s' : State} {t : Located Token}

theorem State.Kept.succ (h : s.Kept position) : s.Kept (position + 1) where
  frames f hf := { h.frames f hf with position := Nat.le_succ_of_le (h.frames f hf).position }
  done := h.done

/-- With what it holds a reader may go to any sound stand. -/
theorem State.Kept.stands {stand : Stand} (h : s.Kept position) (sound : stand.Sound (position + 1)) :
    State.Sound (position + 1) { s with stand } where
  frames := h.succ.frames
  done := h.done
  stand := sound

theorem State.Kept.tie {last : Term} {join : Option (Located Join)} (h : s.Kept position) (range : last.InRange) :
    (tie last join s).Kept position where
  frames := h.frames
  done := List.forall_mem_cons.mpr ⟨range, h.done⟩

theorem State.Sound.entries (h : s.Sound position) : ∀ e ∈ s.entries, e.term.InRange := by
  obtain ⟨⟨-, done⟩, stand⟩ := h
  unfold State.entries
  cases hs : s.stand with
  | fresh | lead => exact done
  | behind | behindBlank | behindPlus | behindPlusBlank =>
    rw [hs] at stand
    exact List.forall_mem_cons.mpr ⟨stand, done⟩

theorem State.Sound.row (h : s.Sound position) : s.row.InRange :=
  inRange_ofList.mpr fun e he => h.entries e (List.mem_reverse.mp he)

theorem openGroup_sound {paren first : Span} {sign : Option (Located Sign)} {magnitude : Option (Located Int)}
    (h : s.Kept position) (range : ∀ m, magnitude = some m → m.value.natAbs ≤ Word.greatestSigned)
    (hs : openGroup limit position paren first sign magnitude s = .ok s') : s'.Sound (position + 1) := by
  unfold openGroup at hs
  split at hs
  · cases hs
    have opened : Frame.Sound (position + 1) ⟨s.done, first, sign, magnitude, paren, position⟩ :=
      ⟨Nat.le_succ position, range, h.done⟩
    exact ⟨⟨List.forall_mem_cons.mpr ⟨opened, h.succ.frames⟩, fun e he => by cases he⟩, trivial⟩
  · cases hs

theorem beginTerm_sound (h : s.Kept position) (hs : beginTerm limit position t s = .ok s') :
    s'.Sound (position + 1) := by
  unfold beginTerm at hs
  split at hs
  · next n _ =>
    split at hs
    · next hn =>
      cases hs
      refine h.stands ⟨Nat.le_succ position, fun m hm => ?_⟩
      cases hm
      exact hn
    · cases hs
  · cases hs
    exact h.stands ⟨Nat.le_succ position, fun n hn => by cases hn⟩
  · cases hs
    exact h.stands ⟨Nat.le_succ position, fun n hn => by cases hn⟩
  · exact openGroup_sound h (fun m hm => by cases hm) hs
  all_goals
    unfold stray at hs
    split at hs <;> cases hs

theorem closeGroup_sound {paren : Span} (h : s.Sound position) (hs : closeGroup position paren s = .ok s') :
    s'.Sound (position + 1) := by
  unfold closeGroup at hs
  split at hs
  · cases hs
  · next f frames hframes =>
    cases hs
    have all := h.toKept.succ.frames
    rw [hframes] at all
    obtain ⟨inner, outer⟩ := List.forall_mem_cons.mp all
    exact ⟨⟨outer, inner.before⟩, inner.magnitude, h.row⟩

theorem Lead.Sound.clusterCount {l : Lead} {count : Int} (h : l.Sound position) (hc : l.clusterCount = .ok count) :
    count.natAbs ≤ Word.greatestSigned := by
  obtain ⟨-, range⟩ := h
  unfold Lead.clusterCount at hc
  split at hc
  · cases hc
  · next n hn =>
    split at hc
    · cases hc
    · split at hc
      · cases hc
        exact range n hn
      · cases hc
      · split at hc
        · cases hc
        · cases hc
          rw [Int.natAbs_neg]
          exact range n hn

theorem Lead.Sound.magnitude {l : Lead} {magnitude : Option (Located Int)} (h : l.Sound position)
    (hm : l.magnitude = .ok magnitude) : ∀ m, magnitude = some m → m.value.natAbs ≤ Word.greatestSigned := by
  obtain ⟨-, range⟩ := h
  unfold Lead.magnitude at hm
  rintro m rfl
  split at hm
  · cases hm
  · next n _ hn =>
    cases hm
    rw [Int.natAbs_neg]
    exact range n hn
  · obtain ⟨n, hn, rfl⟩ := Option.map_eq_some_iff.mp (Except.ok.inj hm)
    exact range n hn

theorem stepLead_sound {l : Lead} (h : s.Kept position) (lead : l.Sound position)
    (hs : stepLead limit position l t s = .ok s') : s'.Sound (position + 1) := by
  have position := Nat.le_succ_of_le lead.position
  unfold stepLead at hs
  split at hs
  · split at hs
    · cases hs
      exact h.stands ⟨position, lead.count⟩
    · cases hs
  · split at hs
    · next hn =>
      cases hs
      refine h.stands ⟨position, fun m hm => ?_⟩
      cases hm
      exact hn.2
    · cases hs
  · split at hs
    · next count hc =>
      cases hs
      refine h.stands ?_
      exact lead.clusterCount hc
    · cases hs
  · split at hs
    · next magnitude hm => exact openGroup_sound h (lead.magnitude hm) hs
    · cases hs
  all_goals cases hs

theorem stepBehind_sound {last : Term} (h : s.Sound position) (range : last.InRange)
    (hs : stepBehind limit position last t s = .ok s') : s'.Sound (position + 1) := by
  have begins : ∀ {join}, beginTerm limit position t (tie last join s) = .ok s' → s'.Sound (position + 1) := fun hs =>
    beginTerm_sound (h.tie range) hs
  unfold stepBehind at hs
  split at hs
  · cases hs
    exact h.stands range
  · cases hs
    exact h.stands range
  · exact closeGroup_sound h hs
  · exact begins hs
  · split at hs
    · exact begins hs
    · cases hs
  · split at hs
    · exact begins hs
    · cases hs
  · unfold stray at hs
    split at hs <;> cases hs

theorem stepBehindBlank_sound {last : Term} {blank : Span} (h : s.Sound position) (range : last.InRange)
    (hs : stepBehindBlank limit position last blank t s = .ok s') : s'.Sound (position + 1) := by
  have begins : ∀ {join}, beginTerm limit position t (tie last join s) = .ok s' → s'.Sound (position + 1) := fun hs =>
    beginTerm_sound (h.tie range) hs
  unfold stepBehindBlank at hs
  split at hs
  · cases hs
    exact h.stands range
  · exact closeGroup_sound h hs
  · exact begins hs
  · exact begins hs
  · exact begins hs
  all_goals
    unfold stray at hs
    split at hs
    · split at hs <;> cases hs
    · cases hs

theorem stepBehindJoin_sound {last : Term} {join : Span} (h : s.Kept position) (range : last.InRange)
    (hs : stepBehindJoin limit position last join t s = .ok s') : s'.Sound (position + 1) := by
  unfold stepBehindJoin at hs
  split at hs
  · exact beginTerm_sound (h.tie range) hs
  · cases hs

theorem State.Sound.step (h : s.Sound position) (hs : Reader.step limit position s t = .ok s') :
    s'.Sound (position + 1) := by
  have stand := h.stand
  unfold Reader.step at hs
  split at hs
  · next hfresh =>
    split at hs
    · cases hs
      exact ⟨h.toKept.succ, by rw [hfresh]; trivial⟩
    · exact closeGroup_sound h hs
    all_goals exact beginTerm_sound h.toKept hs
  · next l hl =>
    rw [hl] at stand
    exact stepLead_sound h.toKept stand hs
  · next last hlast =>
    rw [hlast] at stand
    exact stepBehind_sound h stand hs
  · next last blank hlast =>
    rw [hlast] at stand
    exact stepBehindBlank_sound h stand hs
  · next last join hlast =>
    rw [hlast] at stand
    split at hs
    · cases hs
      exact h.stands stand
    · exact stepBehindJoin_sound h.toKept stand hs
  · next last join hlast =>
    rw [hlast] at stand
    exact stepBehindJoin_sound h.toKept stand hs

end Step

/-- What a reader holds is sound, whatever tokens it has taken. -/
theorem sound_of_run {limit : Nat} {ts : List (Located Token)} {s : State} (h : run limit 0 Reader.start ts = .ok s) :
    s.Sound ts.length := by
  refine run_induction (P := fun ws s => s.Sound ws.length) ?_ (fun ws t rest s s' _ hk hs => ?_) h
  · exact ⟨⟨(fun f hf => by cases hf), (fun e he => by cases he)⟩, trivial⟩
  · rw [List.length_append, List.length_singleton]
    exact hk.step hs

/-! ### The tokens that a fault names -/

theorem State.Sound.lead {position : Nat} {s : State} (h : s.Sound position) :
    ∀ l, s.stand = .lead l → l.Sound position := by
  intro l hl
  have stand := h.stand
  rw [hl] at stand
  exact stand

theorem finish_fault {position : Nat} {s : State} {f : Fault} (h : s.Sound position)
    (hf : finish position s = .error f) : f.start ≤ f.stop ∧ f.stop = position := by
  unfold finish at hf
  split at hf
  · next l hl =>
    cases hf
    exact ⟨(h.lead l hl).position, rfl⟩
  · cases hf
    exact ⟨Nat.le_refl position, rfl⟩
  · cases hf
    exact ⟨Nat.le_refl position, rfl⟩
  all_goals
    split at hf
    · cases hf
    · next g frames hframes =>
      cases hf
      have frame := h.frames g (hframes ▸ List.mem_cons_self)
      exact ⟨frame.position, rfl⟩

end Row.Reader

namespace Row
variable {limit : Nat} {ts : List (Located Token)} {f : Fault}

/-- A fault names tokens that are there, in their order, and there is at least one token. -/
theorem fault_within (h : ofTokens limit ts = .error f) : f.start ≤ f.stop ∧ f.stop ≤ ts.length ∧ ts ≠ [] := by
  have some : ts ≠ [] := by
    rintro rfl
    cases h
  unfold ofTokens at h
  split at h
  · next s hs =>
    obtain ⟨order, stop⟩ := Reader.finish_fault (Reader.sound_of_run hs) h
    exact ⟨order, Nat.le_of_eq stop, some⟩
  · next g hg =>
    cases h
    obtain ⟨before, t, rest, s, rfl, hs, hstep⟩ := Reader.exists_of_run_error hg
    rw [Nat.zero_add] at hstep
    have lead : ∀ l, s.stand = .lead l → l.position ≤ before.length := fun l hl =>
      ((Reader.sound_of_run hs).lead l hl).position
    obtain ⟨-, start, stop⟩ := Reader.step_stops lead hstep
    rw [List.length_append, List.length_cons]
    exact ⟨by omega, by omega, some⟩

theorem inRange_of_ofTokens {row : Row} (h : ofTokens limit ts = .ok row) : row.InRange := by
  unfold ofTokens at h
  split at h
  · next s hs =>
    obtain ⟨-, -, rfl⟩ := Reader.finish_ok h
    exact (Reader.sound_of_run hs).row
  · cases h

/-! ### The label of a fault, with guards -/

/-- A look beyond the tokens, or a number below zero. -/
inductive Breach
  | underflow (a b : Nat)
  | slice (start stop length : Nat)
  | index (i length : Nat)

namespace Guarded

def difference (a b : Nat) : Except Breach Nat :=
  if b ≤ a then .ok (a - b) else .error (.underflow a b)

def slice (ts : List (Located Token)) (start stop : Nat) : Except Breach (List (Located Token)) :=
  if start ≤ stop ∧ stop ≤ ts.length then .ok ((ts.take stop).drop start)
  else .error (.slice start stop ts.length)

def index (ts : List (Located Token)) (i : Nat) : Except Breach (Located Token) :=
  match ts[i]? with
  | some t => .ok t
  | none => .error (.index i ts.length)

/-- The span of the tokens from `start` up to, not including, `stop`, without blanks at either edge; where there are
    none, that of the token at `stop`, or else of the last one. -/
def span (ts : List (Located Token)) (start stop : Nat) : Except Breach Span :=
  if start < stop then do
    let vain ← slice ts start stop
    let head ← index vain 0
    let first := ((vain.find? (!·.value.isBlank)).map (·.span)).getD head.span
    return ((Fault.edge? vain.reverse).map first.union).getD first
  else if stop < ts.length then do
    let t ← index ts stop
    return t.span
  else return (Fault.edge? ts.reverse).getD default

/-- The span of a fault, from the numbers of tokens that were left where it began and where it showed. -/
def faultSpan (ts : List (Located Token)) (begun shown : Nat) : Except Breach Span := do
  let stop ← difference ts.length shown
  let start ← difference ts.length begun
  span ts start stop

theorem difference_length_drop {ts : List (Located Token)} {i : Nat} (hi : i ≤ ts.length) :
    difference ts.length (ts.drop i).length = .ok i := by
  rw [List.length_drop, difference, if_pos (Nat.sub_le _ _), Nat.sub_sub_self hi]

theorem edge?_cons (t : Located Token) (rest : List (Located Token)) :
    Fault.edge? (t :: rest) = some ((((t :: rest).find? (!·.value.isBlank)).map (·.span)).getD t.span) := by
  unfold Fault.edge?
  cases (t :: rest).find? (!·.value.isBlank) <;> rfl

/-- Among the tokens no guard stops. -/
theorem span_eq {ts : List (Located Token)} {f : Fault} (order : f.start ≤ f.stop) (within : f.stop ≤ ts.length) :
    span ts f.start f.stop = .ok (f.span ts) := by
  obtain ⟨vain, hvain⟩ : ∃ vain, vain = (ts.take f.stop).drop f.start := ⟨_, rfl⟩
  have length : vain.length = f.stop - f.start := by
    rw [hvain, List.length_drop, List.length_take, Nat.min_eq_left within]
  have sliced : slice ts f.start f.stop = .ok vain := hvain ▸ if_pos ⟨order, within⟩
  unfold span Fault.span
  rw [← hvain]
  split
  · next hlt =>
    cases vain with
    | nil =>
      rw [List.length_nil] at length
      omega
    | cons head rest =>
      have here : index (head :: rest) 0 = .ok head := rfl
      obtain ⟨last, hlast⟩ := Fault.exists_edge? (List.reverse_ne_nil_iff.mpr (List.cons_ne_nil head rest))
      simp only [sliced, here, edge?_cons, hlast, bind, Except.bind]
      rfl
  · next hge =>
    obtain rfl : vain = [] := List.length_eq_zero_iff.mp (by omega)
    split
    · next hlt =>
      have here : index ts f.stop = .ok ts[f.stop] := by rw [index, List.getElem?_eq_getElem hlt]
      rw [here, List.getElem?_eq_getElem hlt]
      rfl
    · next hend =>
      rw [List.getElem?_eq_none (Nat.le_of_not_lt hend)]
      rfl

theorem faultSpan_eq {ts : List (Located Token)} {f : Fault} (order : f.start ≤ f.stop) (within : f.stop ≤ ts.length) :
    faultSpan ts (ts.drop f.start).length (ts.drop f.stop).length = .ok (f.span ts) := by
  rw [faultSpan, difference_length_drop within, difference_length_drop (Nat.le_trans order within)]
  exact span_eq order within

end Guarded

/-! ### What holds of reading any tokens -/

/-- Reading some tokens under a limit does without words that are out of range: in the counts that may be negated, in
    the number of open groups, in the row that comes out, and in the places from which the label of a fault is found. -/
structure Confined (limit : Nat) (ts : List (Located Token)) : Prop where
  count : ∀ before rest s l n, ts = before ++ rest → Reader.run limit 0 Reader.start before = .ok s →
    s.stand = .lead l → l.count = some n → n.value ≤ Word.greatestSigned
  depth : ∀ before rest s, ts = before ++ rest → Reader.run limit 0 Reader.start before = .ok s →
    s.frames.length ≤ limit
  row : ∀ row, ofTokens limit ts = .ok row → row.InRange
  fault : ∀ f, ofTokens limit ts = .error f → f.start ≤ f.stop ∧ f.stop ≤ ts.length ∧ ts ≠ []
  label : ∀ f, ofTokens limit ts = .error f → ∃ label, (f.diagnostic ts).primary? = some label ∧
    Guarded.faultSpan ts (ts.drop f.start).length (ts.drop f.stop).length = .ok label.span
  code : ∀ f, ofTokens limit ts = .error f → ∃ code, (f.diagnostic ts).code = some code ∧
    code.text ∈ ["E100", "E101", "E102", "E103", "E104"]

/-- So it is with reading any tokens. -/
theorem confined (limit : Nat) (ts : List (Located Token)) : Confined limit ts where
  count before rest s l n _ hs hl hn := ((Reader.sound_of_run hs).lead l hl).count n hn
  depth before rest s _ hs := (Reader.shallow_of_run hs).frames.length_le
  row _ h := inRange_of_ofTokens h
  fault _ h := fault_within h
  label f h := by
    obtain ⟨order, within, -⟩ := fault_within h
    exact ⟨⟨f.span ts, _, true⟩, rfl, Guarded.faultSpan_eq order within⟩
  code f _ := by
    refine ⟨f.cause.code, rfl, ?_⟩
    cases f.cause <;> simp [Fault.Cause.code, Diagnostic.Code.text]

/-- Blanks side by side and spans out of order: a magnitude is the opposite of the greatest signed word, and in the body
    of its group stands an integer that is too great. -/
theorem confined_of_greatest_words :
    let ts : List (Located Token) := [⟨.blank, ⟨9, 3⟩⟩, ⟨.blank, ⟨0, 0⟩⟩, ⟨.minus, ⟨5, 2⟩⟩, ⟨.minus, ⟨1, 1⟩⟩,
      ⟨.integer Word.greatestSigned, ⟨7, 7⟩⟩, ⟨.leftParen, ⟨6, 4⟩⟩]
    let head : Head := ⟨some ⟨.minus, ⟨5, 2⟩⟩, some ⟨-Word.greatestSigned, ⟨1, 7⟩⟩, ⟨6, 8⟩, ⟨5, 8⟩⟩
    ofTokens 1 (ts ++ [⟨.rightParen, ⟨8, 8⟩⟩]) = .ok (.group head .nil none .nil) ∧
      (Row.group head .nil none .nil).InRange ∧
      ofTokens 1 (ts ++ [⟨.integer Word.greatest, ⟨8, 8⟩⟩]) = .error ⟨.signAlone, 6, 6⟩ ∧
      Guarded.faultSpan (ts ++ [⟨.integer Word.greatest, ⟨8, 8⟩⟩]) 1 1 = .ok ⟨8, 8⟩ := by
  intro ts head
  have read : ofTokens 1 (ts ++ [⟨.rightParen, ⟨8, 8⟩⟩]) = .ok (.group head .nil none .nil) := by decide +kernel
  have refused : ofTokens 1 (ts ++ [⟨.integer Word.greatest, ⟨8, 8⟩⟩]) = .error ⟨.signAlone, 6, 6⟩ := by decide +kernel
  obtain ⟨label, primary, found⟩ := (confined 1 (ts ++ [⟨.integer Word.greatest, ⟨8, 8⟩⟩])).label _ refused
  cases primary
  exact ⟨read, (confined 1 _).row _ read, refused, found⟩

end Row

end Dotwork
