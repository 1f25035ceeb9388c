import Dotwork.Row.Reader

/-!
# The grammar of rows

Which tokens write which row, said as derivations and without a reader. A term is a cluster or a group; terms are
tied by boundaries, and a blank may stand before the first and behind the last one. A derivation fixes the
places of all parts of the row, too, and nothing in it depends on how deep the groups nest.
-/

namespace Dotwork

/-- The token that a sign is written with. -/
def Sign.token : Sign → Token
  | .plus => .plus
  | .minus => .minus

theorem Sign.startsTerm_token (g : Sign) : g.token.startsTerm = true := by
  cases g <;> rfl

namespace Row

/-! ### Derivations -/

/-- At most one blank. -/
inductive Gap : List (Located Token) → Prop
  | none : Gap []
  | blank (s : Span) : Gap [⟨.blank, s⟩]

/-- What stands in front of the symbol of a cluster, with the count that it makes. -/
inductive CountLead : List (Located Token) → Int → Prop
  | plain (n : Nat) (s : Span) : CountLead [⟨.integer n, s⟩] n
  | negated (n : Nat) (m s : Span) (pos : 1 ≤ n) : CountLead [⟨.minus, m⟩, ⟨.integer n, s⟩] (-n)

/-- What stands in front of the parenthesis of a group, with the sign and the magnitude that it makes. -/
inductive GroupLead : List (Located Token) → Option (Located Sign) → Option (Located Int) → Prop
  | bare : GroupLead [] none none
  | sign (g : Sign) (p : Span) : GroupLead [⟨g.token, p⟩] (some ⟨g, p⟩) none
  | magnitude (n : Nat) (s : Span) : GroupLead [⟨.integer n, s⟩] none (some ⟨n, s⟩)
  | signed (g : Sign) (n : Nat) (p s : Span) :
    GroupLead [⟨g.token, p⟩, ⟨.integer n, s⟩] (some ⟨g, p⟩) (some ⟨n, s⟩)
  | negated (g : Sign) (n : Nat) (p m s : Span) :
    GroupLead [⟨g.token, p⟩, ⟨.minus, m⟩, ⟨.integer n, s⟩] (some ⟨g, p⟩) (some ⟨-n, m.union s⟩)

/-- The span of the first token of a term, which is that of the lead unless the lead is empty. -/
def startSpan (lead : List (Located Token)) (s : Span) : Span :=
  (lead.head?.map (·.span)).getD s

/-- The least span that covers a span and some tokens. -/
def cover (s : Span) (ts : List (Located Token)) : Span :=
  ts.foldl (fun s t => s.union t.span) s

/-- The boundary between a term and one that begins with the token `first`, and the join that it makes; `closed`
    says that the term in front ends with a parenthesis. A plus is never read as the beginning of a term where
    it can tie two terms. -/
inductive Boundary (closed : Bool) (first : Token) : List (Located Token) → Option (Located Join) → Prop
  | plus {a b : List (Located Token)} (p : Span) (before : Gap a) (behind : Gap b) :
    Boundary closed first (a ++ ⟨.plus, p⟩ :: b) (some ⟨.plus, cover p (a ++ b)⟩)
  | space (s : Span) (cluster : closed = false) (noPlus : first ≠ .plus) (noParen : first ≠ .leftParen) :
    Boundary closed first [⟨.blank, s⟩] (some ⟨.space, s⟩)
  | touch {a : List (Located Token)} (paren : closed = true ∨ first = .leftParen) (noPlus : first ≠ .plus)
      (gap : Gap a) : Boundary closed first a none

/-- What stands between a term and the tokens of all terms behind it: a boundary, or nothing where there are none. -/
inductive Tie (closed : Bool) : List (Located Token) → Option (Located Join) → List (Located Token) → Prop
  | last : Tie closed [] none []
  | next {gap : List (Located Token)} {join : Option (Located Join)} {t : Located Token}
      {next : List (Located Token)} (boundary : Boundary closed t.value gap join) : Tie closed gap join (t :: next)

/-- The terms of a row, tied by boundaries. -/
inductive Terms : List (Located Token) → Row → Prop
  | nil : Terms [] .nil
  | cluster {lead gap next : List (Located Token)} {count : Int} {join : Option (Located Join)} {rest : Row}
      (x : Symbol) (s : Span) (counts : CountLead lead count) (tie : Tie false gap join next)
      (terms : Terms next rest) :
    Terms (lead ++ ⟨.symbol x, s⟩ :: (gap ++ next))
      (.cluster ⟨count, x, (startSpan lead s).union s⟩ join rest)
  | group {lead a inner b gap next : List (Located Token)} {sign : Option (Located Sign)}
      {magnitude : Option (Located Int)} {body : Row} {join : Option (Located Join)} {rest : Row} (o c : Span)
      (leads : GroupLead lead sign magnitude) (before : Gap a) (content : Terms inner body) (behind : Gap b)
      (tie : Tie true gap join next) (terms : Terms next rest) :
    Terms (lead ++ ⟨.leftParen, o⟩ :: (a ++ inner ++ b) ++ ⟨.rightParen, c⟩ :: (gap ++ next))
      (.group ⟨sign, magnitude, o.union c, (startSpan lead o).union (o.union c)⟩ body join rest)

/-- The tokens write the row. -/
def Derives (ts : List (Located Token)) (row : Row) : Prop :=
  ∃ a ws b, ts = a ++ ws ++ b ∧ Gap a ∧ Terms ws row ∧ Gap b

/-- The tokens write the term. -/
def WritesTerm (ts : List (Located Token)) (t : Term) : Prop :=
  Terms ts (cons ⟨t, none⟩ .nil)

/-- The greatest number of groups around a place in a row. -/
def nesting : Row → Nat
  | .nil => 0
  | .cluster _ _ rest => rest.nesting
  | .group _ body _ rest => max (body.nesting + 1) rest.nesting

end Row

/-- The groups that a term opens around a place in it. -/
def Term.nesting : Term → Nat
  | .cluster _ => 0
  | .group _ body => body.nesting + 1

namespace Row

/-! ### Laws -/

theorem nesting_cons (e : Entry) (rest : Row) : (cons e rest).nesting = max e.term.nesting rest.nesting := by
  obtain ⟨_ | _, _⟩ := e <;> simp [cons, nesting, Term.nesting]

theorem nesting_ofList_le {entries : List Entry} {n : Nat} :
    (ofList entries).nesting ≤ n ↔ ∀ e ∈ entries, e.term.nesting ≤ n := by
  induction entries with
  | nil => simp [ofList, nesting]
  | cons e rest ih =>
    rw [ofList, List.foldr_cons, nesting_cons, Nat.max_le]
    simp only [List.mem_cons, forall_eq_or_imp]
    exact and_congr_right fun _ => ih

theorem nesting_le_of_mem {row : Row} {e : Entry} (h : e ∈ row.toList) : e.term.nesting ≤ row.nesting :=
  nesting_ofList_le.mp (Nat.le_of_eq (congrArg nesting (ofList_toList row))) e h

theorem isEmpty_cons (e : Entry) (rest : Row) : (cons e rest).isEmpty = false := by
  obtain ⟨_ | _, _⟩ := e <;> rfl

theorem CountLead.head {lead : List (Located Token)} {count : Int} (h : CountLead lead count) :
    ∃ t rest, lead = t :: rest ∧ t.value.startsTerm = true := by
  cases h <;> exact ⟨_, _, rfl, rfl⟩

theorem GroupLead.head {lead : List (Located Token)} {sign : Option (Located Sign)}
    {magnitude : Option (Located Int)} (h : GroupLead lead sign magnitude) :
    lead = [] ∨ ∃ t rest, lead = t :: rest ∧ t.value.startsTerm = true := by
  cases h with
  | bare => exact Or.inl rfl
  | sign g _ | signed g _ _ _ | negated g _ _ _ _ => exact Or.inr ⟨_, _, rfl, Sign.startsTerm_token g⟩
  | magnitude => exact Or.inr ⟨_, _, rfl, rfl⟩

namespace Terms
variable {ts : List (Located Token)} {row : Row}

/-- The first token of a row without a blank in front is one that a term can begin with. -/
theorem head (h : Terms ts row) : ts = [] ∧ row = .nil ∨ ∃ t rest, ts = t :: rest ∧ t.value.startsTerm = true := by
  cases h with
  | nil => exact Or.inl ⟨rfl, rfl⟩
  | cluster x s counts tie terms =>
    obtain ⟨t, rest, rfl, ht⟩ := counts.head
    exact Or.inr ⟨t, _, rfl, ht⟩
  | group o c leads before content behind tie terms =>
    rcases leads.head with rfl | ⟨t, rest, rfl, ht⟩
    · exact Or.inr ⟨_, _, rfl, rfl⟩
    · exact Or.inr ⟨t, _, rfl, ht⟩

theorem eq_nil_iff (h : Terms ts row) : ts = [] ↔ row = .nil := by
  cases h <;> simp

/-- A term in front of terms makes a longer row. -/
theorem cons {words gap next : List (Located Token)} {t : Term} {join : Option (Located Join)} {rest : Row}
    (h : WritesTerm words t) (tie : Tie t.isGroup gap join next) (terms : Terms next rest) :
    Terms (words ++ gap ++ next) (Row.cons ⟨t, join⟩ rest) := by
  cases t with
  | cluster c =>
    obtain _ | ⟨x, s, counts, tie', terms'⟩ := h
    obtain rfl := terms'.eq_nil_iff.mpr rfl
    cases tie'
    simpa [Row.cons] using Terms.cluster x s counts tie terms
  | group head body =>
    obtain _ | _ | ⟨o, c, leads, before, content, behind, tie', terms'⟩ := h
    obtain rfl := terms'.eq_nil_iff.mpr rfl
    cases tie'
    simpa [Row.cons] using Terms.group o c leads before content behind tie terms

/-- The tokens of terms are those of the first one, what ties it, and those of the terms behind it. -/
theorem exists_of_cons {e : Entry} {rest : Row} (h : Terms ts (Row.cons e rest)) :
    ∃ words gap next, ts = words ++ gap ++ next ∧ WritesTerm words e.term ∧ Tie e.term.isGroup gap e.join next ∧
      Terms next rest := by
  obtain ⟨t, join⟩ := e
  cases t with
  | cluster c =>
    obtain _ | @⟨lead, gap, next, _, _, _, x, s, counts, tie, terms⟩ := h
    have writes : WritesTerm (lead ++ [⟨.symbol x, s⟩]) (.cluster _) := Terms.cluster x s counts .last .nil
    exact ⟨_, gap, next, by simp, writes, tie, terms⟩
  | group head body =>
    obtain _ | _ | @⟨lead, a, inner, b, gap, next, _, _, _, _, _, o, c, leads, before, content, behind, tie, terms⟩ := h
    have writes : WritesTerm (lead ++ ⟨.leftParen, o⟩ :: (a ++ inner ++ b) ++ [⟨.rightParen, c⟩]) (.group _ body) :=
      Terms.group o c leads before content behind .last .nil
    exact ⟨_, gap, next, by simp, writes, tie, terms⟩

/-- Where an entry stands in a row its tokens stand among those of the row. -/
theorem exists_of_toList {front back : List Entry} {e : Entry} (h : Terms ts row)
    (hsplit : row.toList = front ++ e :: back) :
    ∃ before words gap next, ts = before ++ words ++ gap ++ next ∧ (front = [] → before = []) ∧
      WritesTerm words e.term ∧ Tie e.term.isGroup gap e.join next ∧ Terms next (ofList back) := by
  induction front generalizing ts row with
  | nil =>
    obtain rfl : row = Row.cons e (ofList back) := by rw [← ofList_toList row, hsplit]; rfl
    obtain ⟨words, gap, next, rfl, writes, tie, terms⟩ := h.exists_of_cons
    exact ⟨[], words, gap, next, rfl, fun _ => rfl, writes, tie, terms⟩
  | cons f front ih =>
    obtain rfl : row = Row.cons f (ofList (front ++ e :: back)) := by rw [← ofList_toList row, hsplit]; rfl
    obtain ⟨words, gap, next, rfl, -, -, terms⟩ := h.exists_of_cons
    obtain ⟨before, words', gap', next', rfl, -, writes, tie, terms'⟩ := ih terms (toList_ofList _)
    exact ⟨words ++ gap ++ before, words', gap', next', by simp, nofun, writes, tie, terms'⟩

end Terms

end Row

end Dotwork
