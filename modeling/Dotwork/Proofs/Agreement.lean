import Dotwork.Proofs.Drawing
import Dotwork.Proofs.Grammar
import Mathlib.Data.List.Forall2

/-!
# Tokens and events

What a row shows can be told from its tokens without reading them: parentheses are matched, a symbol is as many
dots as the integer in front of it says, and a plus behind a term ties two terms. The events of the row that the
tokens write tell the same in the same order.
-/

namespace Dotwork

namespace Token

/-- The side of a group that a token is. -/
def bracket? : Token → Option Bracket
  | .leftParen => some .opening
  | .rightParen => some .closing
  | .integer _ | .symbol _ | .plus | .minus | .blank => none

/-- A term ends with its symbol or with its closing parenthesis. -/
def endsTerm : Token → Bool
  | .symbol _ | .rightParen => true
  | .integer _ | .plus | .minus | .leftParen | .blank => false

/-- The tokens that tell nothing by themselves. -/
def isMute : Token → Bool
  | .integer _ | .minus | .blank => true
  | .symbol _ | .plus | .leftParen | .rightParen => false

end Token

/-! ### What tokens tell -/

namespace Tokens
variable {ts : List (Located Token)}

/-- The parentheses among some tokens. -/
def brackets (ts : List (Located Token)) : List Bracket :=
  ts.filterMap (·.value.bracket?)

/-- The groups that are open behind some tokens, outermost first. -/
def path (ts : List (Located Token)) : List Layout.GroupId :=
  (Bracket.opened (brackets ts)).map Layout.GroupId.mk

/-- The integer that some tokens end with. -/
def lastInteger? (ts : List (Located Token)) : Option Nat :=
  match ts.getLast?.map Located.value with
  | some (.integer n) => some n
  | _ => none

/-- The tokens end with a minus. -/
def behindMinus (ts : List (Located Token)) : Bool :=
  ts.getLast?.map Located.value == some .minus

/-- The last of the tokens that is no blank ends a term. -/
def behindTerm (ts : List (Located Token)) : Bool :=
  (ts.filter fun t => !t.value.isBlank).getLast?.any (·.value.endsTerm)

/-- The dots of a symbol: as many as the integer in front says, minus dots if a minus stands in front of that, in
    the groups that are open. -/
def dotsOf (before : List (Located Token)) (t : Located Token) : List (Symbol × Sign × List Layout.GroupId) :=
  match t.value, lastInteger? before with
  | .symbol x, some n =>
    List.replicate n (x, if behindMinus before.dropLast then .minus else .plus, path before)
  | _, _ => []

/-- A symbol without an integer in front. -/
def uncountedOf (before : List (Located Token)) (t : Located Token) : List (Located Token) :=
  match t.value, lastInteger? before with
  | .symbol _, none => [t]
  | _, _ => []

/-- The join of a plus behind a term: where it is written, and the number of groups around it with the innermost. -/
def tiesOf (before : List (Located Token)) (t : Located Token) : List (Span × Nat × Option Layout.GroupId) :=
  if t.value = .plus ∧ behindTerm before = true then [(t.span, (path before).length, (path before).getLast?)] else []

theorem brackets_append (ts us : List (Located Token)) : brackets (ts ++ us) = brackets ts ++ brackets us :=
  List.filterMap_append

theorem behindTerm_concat (ts : List (Located Token)) {t : Located Token} (ht : t.value.isBlank = false) :
    behindTerm (ts ++ [t]) = t.value.endsTerm := by
  simp [behindTerm, ht]

theorem behindTerm_gap (ts : List (Located Token)) {gap : List (Located Token)} (h : Row.Gap gap) :
    behindTerm (ts ++ gap) = behindTerm ts := by
  cases h <;> simp [behindTerm, Token.isBlank]

theorem behindMinus_concat (ts : List (Located Token)) (t : Located Token) :
    behindMinus (ts ++ [t]) = (t.value == .minus) := by
  simp [behindMinus]

theorem behindMinus_gap {gap : List (Located Token)} (h : Row.Gap gap) (hts : behindMinus ts = false) :
    behindMinus (ts ++ gap) = false := by
  cases h with
  | none => rwa [List.append_nil]
  | blank => simp [behindMinus]

theorem lastInteger?_concat (ts : List (Located Token)) (n : Nat) (s : Span) :
    lastInteger? (ts ++ [⟨.integer n, s⟩]) = some n := by
  simp [lastInteger?]

theorem exists_of_uncountedOf {before : List (Located Token)} {x : Symbol} {s : Span}
    (h : uncountedOf before ⟨.symbol x, s⟩ = []) : ∃ lead n p, before = lead ++ [⟨.integer n, p⟩] := by
  cases hlast : before.getLast? with
  | none => simp [uncountedOf, lastInteger?, hlast] at h
  | some t =>
    obtain ⟨lead, rfl⟩ := List.getLast?_eq_some_iff.mp hlast
    obtain ⟨v, p⟩ := t
    cases v with
    | integer n => exact ⟨lead, n, p, rfl⟩
    | symbol | plus | minus | leftParen | rightParen | blank => simp [uncountedOf, lastInteger?] at h

end Tokens

/-! ### What events tell -/

namespace Event

def dotsOf (before : List Event) : Event → List (Symbol × Sign × List Layout.GroupId)
  | .dot c => [(c.symbol, c.sign, path before)]
  | .zero | .space | .plus _ | .opening _ | .closing => []

def tiesOf (before : List Event) : Event → List (Span × Nat × Option Layout.GroupId)
  | .plus source => [(source, (path before).length, (path before).getLast?)]
  | .dot _ | .zero | .space | .opening _ | .closing => []

theorem scan_dotsOf_cluster (before : List Event) (c : Cluster) :
    scan dotsOf before c.events = List.replicate c.magnitude (c.symbol, c.sign, path before) := by
  rw [c.scan_events (fun _ => rfl) (fun es fs h => by rw [dotsOf, dotsOf, path, path, h])]
  exact List.flatten_replicate_singleton

theorem scan_tiesOf_cluster (before : List Event) (c : Cluster) : scan tiesOf before c.events = [] := by
  rw [c.scan_events (fun _ => rfl) (fun _ _ _ => rfl)]
  exact List.flatten_replicate_nil

end Event

/-! ### Agreement -/

/-- One join is written where the other one is, and the same groups are around both. -/
def SameTie (a b : Span × Nat × Option Layout.GroupId) : Prop :=
  b.1.start ≤ a.1.start ∧ a.1.stop ≤ b.1.stop ∧ a.2 = b.2

/-- Behind some tokens and some events, more tokens and more events tell the same, and no symbol lacks its integer. -/
structure Agrees (tp ts : List (Located Token)) (ep es : List Event) : Prop where
  brackets : Tokens.brackets ts = Event.brackets es
  dots : scan Tokens.dotsOf tp ts = scan Event.dotsOf ep es
  counted : scan Tokens.uncountedOf tp ts = []
  ties : List.Forall₂ SameTie (scan Tokens.tiesOf tp ts) (scan Event.tiesOf ep es)

namespace Agrees
variable {tp ts us : List (Located Token)} {ep es fs : List Event}

theorem nil : Agrees tp [] ep [] :=
  ⟨rfl, rfl, rfl, .nil⟩

theorem append (h : Agrees tp ts ep es) (h' : Agrees (tp ++ ts) us (ep ++ es) fs) :
    Agrees tp (ts ++ us) ep (es ++ fs) where
  brackets := by rw [Tokens.brackets_append, Event.brackets_append, h.brackets, h'.brackets]
  dots := by rw [scan_append, scan_append, h.dots, h'.dots]
  counted := by rw [scan_append, h.counted, h'.counted, List.append_nil]
  ties := by
    rw [scan_append, scan_append]
    exact List.rel_append h.ties h'.ties

theorem brackets_append (h : Agrees tp ts ep es) (same : Tokens.brackets tp = Event.brackets ep) :
    Tokens.brackets (tp ++ ts) = Event.brackets (ep ++ es) := by
  rw [Tokens.brackets_append, Event.brackets_append, same, h.brackets]

theorem mute {t : Located Token} (h : Agrees tp ts ep es) (ht : t.value.isMute = true) :
    Agrees tp (ts ++ [t]) ep es := by
  obtain ⟨v, s⟩ := t
  have alone : Agrees (tp ++ ts) [⟨v, s⟩] (ep ++ es) [] := by
    cases v with
    | integer | minus | blank => exact ⟨rfl, rfl, rfl, .nil⟩
    | symbol | plus | leftParen | rightParen => cases ht
  simpa using h.append alone

theorem gap {a : List (Located Token)} (h : Agrees tp ts ep es) (ha : Row.Gap a) : Agrees tp (ts ++ a) ep es := by
  cases ha with
  | none => rwa [List.append_nil]
  | blank s => exact h.mute rfl

theorem sign {g : Sign} {p : Span} (h : g.token = .plus → Tokens.behindTerm tp = false) :
    Agrees tp [⟨g.token, p⟩] ep [] := by
  cases g with
  | plus =>
    refine ⟨rfl, rfl, rfl, ?_⟩
    simp [scan, Tokens.tiesOf, h rfl]
  | minus => exact ⟨rfl, rfl, rfl, .nil⟩

theorem plus {p source : Span} (same : Tokens.brackets tp = Event.brackets ep) (ends : Tokens.behindTerm tp = true)
    (covers : source.start ≤ p.start ∧ p.stop ≤ source.stop) : Agrees tp [⟨.plus, p⟩] ep [.plus source] := by
  refine ⟨rfl, rfl, rfl, ?_⟩
  have hpath : Tokens.path tp = Event.path ep := by rw [Tokens.path, same, Event.path]
  simp only [scan, Tokens.tiesOf, ends, hpath, and_self, ↓reduceIte, Event.tiesOf, List.append_nil]
  exact .cons ⟨covers.1, covers.2, rfl⟩ .nil

/-- The dots of a cluster are those of its symbol. -/
theorem symbol {n : Nat} {q : Span} {count : Int} (same : Tokens.brackets tp = Event.brackets ep)
    (hcount : count.natAbs = n) (hsign : Sign.ofCount count = if Tokens.behindMinus tp then .minus else .plus)
    (x : Symbol) (s span : Span) :
    Agrees (tp ++ [⟨.integer n, q⟩]) [⟨.symbol x, s⟩] ep (Cluster.events ⟨count, x, span⟩) := by
  have hpath : Tokens.path (tp ++ [⟨.integer n, q⟩]) = Event.path ep := by
    rw [Tokens.path, Tokens.brackets_append, same, show Tokens.brackets [⟨.integer n, q⟩] = [] from rfl,
      List.append_nil, Event.path]
  constructor
  · exact (brackets_events _).symm
  · rw [Event.scan_dotsOf_cluster]
    simp [scan, Tokens.dotsOf, Tokens.lastInteger?_concat, hpath, Cluster.magnitude, hcount, Cluster.sign, hsign]
  · simp [scan, Tokens.uncountedOf, Tokens.lastInteger?_concat]
  · rw [Event.scan_tiesOf_cluster]
    simp [scan, Tokens.tiesOf]

end Agrees

/-- Where a term can begin with a token, a minus does not stand in front, and a plus ties no terms. -/
structure Ready (tp : List (Located Token)) (first : Token) : Prop where
  minus : Tokens.behindMinus tp = false
  plus : first = .plus → Tokens.behindTerm tp = false

namespace Row

theorem cover_covers (s : Span) (ts : List (Located Token)) :
    (cover s ts).start ≤ s.start ∧ s.stop ≤ (cover s ts).stop := by
  induction ts generalizing s with
  | nil => exact ⟨Nat.le_refl _, Nat.le_refl _⟩
  | cons t ts ih =>
    obtain ⟨hstart, hstop⟩ := ih (s.union t.span)
    exact ⟨Nat.le_trans hstart (Nat.min_le_left _ _), Nat.le_trans (Nat.le_max_left _ _) hstop⟩

variable {tp : List (Located Token)} {ep : List Event}

theorem CountLead.agrees {lead : List (Located Token)} {count : Int} (h : CountLead lead count)
    (same : Tokens.brackets tp = Event.brackets ep) (ready : Tokens.behindMinus tp = false) (x : Symbol)
    (s span : Span) : Agrees tp (lead ++ [⟨.symbol x, s⟩]) ep (Cluster.events ⟨count, x, span⟩) := by
  cases h with
  | plain n q =>
    have lead : Agrees tp [⟨.integer n, q⟩] ep [] := Agrees.nil.mute rfl
    refine lead.append ?_
    rw [List.append_nil]
    exact Agrees.symbol same (Int.natAbs_natCast n) (by simp [ready, Sign.ofCount]) x s span
  | negated n m q pos =>
    have lead : Agrees tp [⟨.minus, m⟩, ⟨.integer n, q⟩] ep [] := (Agrees.nil.mute rfl).mute rfl
    refine lead.append ?_
    rw [List.append_nil, ← List.singleton_append, ← List.append_assoc]
    refine Agrees.symbol ?_ (by simp) ?_ x s span
    · rw [Tokens.brackets_append, same]
      exact List.append_nil _
    · rw [Tokens.behindMinus_concat]
      simp [Sign.ofCount]
      omega

theorem GroupLead.agrees {lead : List (Located Token)} {sign : Option (Located Sign)}
    {magnitude : Option (Located Int)} (h : GroupLead lead sign magnitude) {o : Span}
    (ready : ∀ t, (lead ++ [(⟨.leftParen, o⟩ : Located Token)]).head? = some t → Ready tp t.value) (head : Head) :
    Agrees tp (lead ++ [⟨.leftParen, o⟩]) ep [.opening head] := by
  have plus : ∀ {g : Sign} {p : Span} {rest : List (Located Token)}, lead = ⟨g.token, p⟩ :: rest →
      g.token = .plus → Tokens.behindTerm tp = false := fun hlead => by
    subst hlead
    exact (ready _ rfl).plus
  have leads : Agrees tp lead ep [] := by
    cases h with
    | bare => exact .nil
    | sign g p => exact .sign (plus rfl)
    | magnitude n s => exact Agrees.nil.mute rfl
    | signed g n p s => exact (Agrees.sign (plus rfl)).mute rfl
    | negated g n p m s => exact ((Agrees.sign (plus rfl)).mute rfl).mute rfl
  have opens : Agrees (tp ++ lead) [⟨.leftParen, o⟩] (ep ++ []) [.opening head] := ⟨rfl, rfl, rfl, .nil⟩
  exact leads.append opens

/-- A boundary tells of the join that it makes, and the term behind it can begin. -/
theorem Tie.agrees {closed : Bool} {gap next : List (Located Token)} {join : Option (Located Join)} {rest : Row}
    (h : Tie closed gap join next) (terms : Terms next rest) (same : Tokens.brackets tp = Event.brackets ep)
    (ends : Tokens.behindTerm tp = true) (ready : Tokens.behindMinus tp = false) :
    Agrees tp gap ep (joinEvents join rest) ∧ ∀ t, next.head? = some t → Ready (tp ++ gap) t.value := by
  cases h with
  | last =>
    rw [terms.eq_nil_iff.mp rfl]
    refine ⟨.nil, fun t ht => ?_⟩
    cases ht
  | @next _ _ t next boundary =>
    -- A term follows, so the join of the boundary is shown.
    have more : ¬rest.isEmpty = true := fun hempty => by
      cases rest with
      | nil => cases terms.eq_nil_iff.mpr rfl
      | cluster | group => cases hempty
    cases boundary with
    | @plus a b p before behind =>
      have gap : Agrees tp a ep [] := Agrees.nil.gap before
      have tie : Agrees (tp ++ a) [⟨.plus, p⟩] ep [.plus (cover p (a ++ b))] :=
        .plus (by rw [Tokens.brackets_append, same, gap.brackets]; exact List.append_nil _)
          (by rw [Tokens.behindTerm_gap tp before, ends]) (cover_covers p (a ++ b))
      rw [show joinEvents (some ⟨.plus, cover p (a ++ b)⟩) rest = [.plus (cover p (a ++ b))] from if_neg more]
      refine ⟨by simpa using gap.append ((List.append_nil ep).symm ▸ tie.gap behind), fun t' _ => ⟨?_, fun _ => ?_⟩⟩
      · rw [List.append_cons, ← List.append_assoc, ← List.append_assoc]
        exact Tokens.behindMinus_gap behind (Tokens.behindMinus_concat _ _)
      · rw [List.append_cons, ← List.append_assoc, ← List.append_assoc, Tokens.behindTerm_gap _ behind,
          Tokens.behindTerm_concat _ rfl]
        rfl
    | space q cluster noPlus noParen =>
      rw [show joinEvents (some ⟨.space, q⟩) rest = [.space] from if_neg more]
      refine ⟨⟨rfl, rfl, rfl, .nil⟩, ?_⟩
      rintro _ ⟨⟩
      exact ⟨Tokens.behindMinus_gap (.blank q) ready, fun h => absurd h noPlus⟩
    | touch paren noPlus gap =>
      rw [show joinEvents none rest = [] from if_neg more]
      refine ⟨Agrees.nil.gap gap, ?_⟩
      rintro _ ⟨⟩
      exact ⟨Tokens.behindMinus_gap gap ready, fun h => absurd h noPlus⟩

/-- The events of a row tell what the tokens that write it tell. -/
theorem Terms.agrees {ts : List (Located Token)} {row : Row} (h : Terms ts row)
    (same : Tokens.brackets tp = Event.brackets ep) (ready : ∀ t, ts.head? = some t → Ready tp t.value) :
    Agrees tp ts ep row.events := by
  induction h generalizing tp ep with
  | nil => exact .nil
  | @cluster lead gap next count join rest x s counts tie terms ih =>
    have minus : Tokens.behindMinus tp = false := by
      obtain ⟨t, lead, rfl, -⟩ := counts.head
      exact (ready t rfl).minus
    have term := counts.agrees same minus x s ((startSpan lead s).union s)
    have same' := term.brackets_append same
    obtain ⟨hgap, hready⟩ := tie.agrees terms same'
      (by rw [← List.append_assoc, Tokens.behindTerm_concat _ rfl]; rfl)
      (by rw [← List.append_assoc, Tokens.behindMinus_concat]; rfl)
    have hnext := ih (hgap.brackets_append same') hready
    simpa [events] using term.append (hgap.append hnext)
  | @group lead a inner b gap next sign magnitude body join rest o c leads before content behind tie terms ihb ih =>
    obtain ⟨head, hhead⟩ : ∃ head : Head,
        head = ⟨sign, magnitude, o.union c, (startSpan lead o).union (o.union c)⟩ := ⟨_, rfl⟩
    -- The opening, the body, the closing and all that is tied behind it agree in turn, each behind those before.
    have opens : Agrees tp (lead ++ [⟨.leftParen, o⟩] ++ a) ep [.opening head] :=
      (leads.agrees (fun t ht => ready t (by cases lead <;> exact ht)) head).gap before
    have same₁ := opens.brackets_append same
    have inside : ∀ t : Located Token, Ready (tp ++ (lead ++ [⟨.leftParen, o⟩] ++ a)) t.value := fun t => by
      rw [← List.append_assoc, ← List.append_assoc]
      refine ⟨Tokens.behindMinus_gap before (Tokens.behindMinus_concat _ _), fun _ => ?_⟩
      rw [Tokens.behindTerm_gap _ before, Tokens.behindTerm_concat _ rfl]
      rfl
    have hcontent : Agrees (tp ++ (lead ++ [⟨.leftParen, o⟩] ++ a)) (inner ++ b) (ep ++ [.opening head])
        body.events := (ihb same₁ fun t _ => inside t).gap behind
    have same₂ := hcontent.brackets_append same₁
    have closes : Agrees (tp ++ (lead ++ [⟨.leftParen, o⟩] ++ a) ++ (inner ++ b)) [⟨.rightParen, c⟩]
        (ep ++ [.opening head] ++ body.events) [.closing] := ⟨rfl, rfl, rfl, .nil⟩
    have same₃ := closes.brackets_append same₂
    obtain ⟨hgap, hready⟩ := tie.agrees terms same₃ (by rw [Tokens.behindTerm_concat _ rfl]; rfl)
      (by rw [Tokens.behindMinus_concat]; rfl)
    have hnext := ih (hgap.brackets_append same₃) hready
    simpa [events, ← hhead] using opens.append (hcontent.append (closes.append (hgap.append hnext)))

theorem Derives.agrees {ts : List (Located Token)} {row : Row} (h : Derives ts row) :
    Agrees [] ts [] row.events := by
  obtain ⟨a, ws, b, rfl, ha, terms, hb⟩ := h
  have before : Agrees [] a [] [] := Agrees.nil.gap ha
  refine (before.append (terms.agrees (before.brackets_append rfl) fun t _ => ⟨?_, fun _ => ?_⟩)).gap hb
  · exact Tokens.behindMinus_gap ha rfl
  · exact Tokens.behindTerm_gap [] ha

end Row

end Dotwork
