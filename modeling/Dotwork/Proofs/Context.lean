import Mathlib.Data.List.Basic
import Mathlib.Data.List.Induction
import Mathlib.Data.List.Infix

/-!
# Lists in context

What a member of a list makes may depend on the members in front of it. The contexts that rows call for are
brackets: which opening ones are still open, and which closing one belongs to an opening one.
-/

namespace Dotwork

/-! ### Reading from left to right -/

section Scan
variable {α β γ : Type}

/-- What the members of a list make, each in the light of those in front of it. -/
def scan (f : List α → α → List β) : List α → List α → List β
  | _, [] => []
  | before, x :: rest => f before x ++ scan f (before ++ [x]) rest

theorem scan_append (f : List α → α → List β) (before xs ys : List α) :
    scan f before (xs ++ ys) = scan f before xs ++ scan f (before ++ xs) ys := by
  induction xs generalizing before with
  | nil => simp [scan]
  | cons x xs ih => simp [scan, ih]

theorem scan_concat (f : List α → α → List β) (before xs : List α) (x : α) :
    scan f before (xs ++ [x]) = scan f before xs ++ f (before ++ xs) x := by
  rw [scan_append]
  simp [scan]

theorem map_scan (f : List α → α → List β) (g : β → γ) (before xs : List α) :
    (scan f before xs).map g = scan (fun before x => (f before x).map g) before xs := by
  induction xs generalizing before with
  | nil => rfl
  | cons x xs ih => rw [scan, List.map_append, ih, scan]

/-- Where nothing is made, no member makes anything. -/
theorem eq_nil_of_scan {f : List α → α → List β} {before rest : List α} {x : α}
    (h : scan f [] (before ++ x :: rest) = []) : f before x = [] := by
  rw [scan_append, List.append_eq_nil_iff] at h
  exact (List.append_eq_nil_iff.mp h.2).1

section Single
variable {f : List α → α → List β} {p : α → Bool} (single : ∀ before x, (f before x).length = if p x then 1 else 0)
include single

theorem length_scan (before xs : List α) : (scan f before xs).length = xs.countP p := by
  induction xs generalizing before with
  | nil => rfl
  | cons x xs ih => rw [scan, List.length_append, single, ih, List.countP_cons, Nat.add_comm]

/-- A member that makes one thing makes it behind all that those in front of it make. -/
theorem getElem?_scan {before rest : List α} {x : α} {y : β} (hy : f before x = [y]) :
    (scan f [] (before ++ x :: rest))[before.countP p]? = some y := by
  have hlength := length_scan single [] before
  rw [scan_append, List.getElem?_append_right (Nat.le_of_eq hlength), hlength, Nat.sub_self, List.nil_append, scan,
    hy]
  rfl

end Single

end Scan

/-! ### Counting -/

/-- Each of the members that are counted stands behind as many as there are in front of it. -/
theorem exists_split_of_lt_countP {α : Type} {p : α → Bool} {xs : List α} {i : Nat} (h : i < xs.countP p) :
    ∃ before x after, xs = before ++ x :: after ∧ p x = true ∧ before.countP p = i := by
  induction xs generalizing i with
  | nil => cases h
  | cons x xs ih =>
    by_cases hx : p x = true
    · cases i with
      | zero => exact ⟨[], x, xs, rfl, hx, rfl⟩
      | succ i =>
        rw [List.countP_cons_of_pos hx] at h
        obtain ⟨before, y, after, rfl, hy, hi⟩ := ih (Nat.lt_of_succ_lt_succ h)
        exact ⟨x :: before, y, after, rfl, hy, by rw [List.countP_cons_of_pos hx, hi]⟩
    · rw [List.countP_cons_of_neg hx] at h
      obtain ⟨before, y, after, rfl, hy, hi⟩ := ih h
      exact ⟨x :: before, y, after, rfl, hy, by rw [List.countP_cons_of_neg hx, hi]⟩

/-! ### Brackets -/

/-- A bracket that opens or closes. -/
inductive Bracket
  | opening
  | closing
deriving DecidableEq

namespace Bracket

/-- The number of opening brackets. -/
def openings (bs : List Bracket) : Nat :=
  bs.count .opening

/-- What one more bracket does to the brackets that are open, by number, when the next one to open has the number
    `n`. -/
def advance : Nat × List Nat → Bracket → Nat × List Nat
  | (n, stack), .opening => (n + 1, stack ++ [n])
  | (n, stack), .closing => (n, stack.dropLast)

/-- The numbers of the opening brackets that are still open, outermost first. -/
def opened (bs : List Bracket) : List Nat :=
  (bs.foldl advance (0, [])).2

/-- How many brackets are open behind a list when `depth` were open in front of it, unless the list closes more. -/
def level : Nat → List Bracket → Option Nat
  | depth, [] => some depth
  | depth, .opening :: bs => level (depth + 1) bs
  | 0, .closing :: _ => none
  | depth + 1, .closing :: bs => level depth bs

/-- Every bracket has its partner in the list. -/
def Balanced (bs : List Bracket) : Prop :=
  level 0 bs = some 0

theorem foldl_advance_fst (bs : List Bracket) (n : Nat) (stack : List Nat) :
    (bs.foldl advance (n, stack)).1 = n + openings bs := by
  induction bs generalizing n stack with
  | nil => rfl
  | cons b bs ih =>
    cases b with
    | opening =>
      rw [List.foldl_cons, advance, ih, openings, openings, List.count_cons_self]
      omega
    | closing => exact ih n stack.dropLast

theorem opened_concat_opening (bs : List Bracket) : opened (bs ++ [.opening]) = opened bs ++ [openings bs] := by
  have hn := foldl_advance_fst bs 0 []
  rw [Nat.zero_add] at hn
  rw [opened, List.foldl_append, ← hn]
  rfl

theorem opened_concat_closing (bs : List Bracket) : opened (bs ++ [.closing]) = (opened bs).dropLast := by
  rw [opened, List.foldl_append]
  rfl

example : opened [.opening, .opening, .closing, .opening] = [0, 2] := rfl

theorem level_append (depth : Nat) (bs cs : List Bracket) :
    level depth (bs ++ cs) = (level depth bs).bind fun depth => level depth cs := by
  induction bs generalizing depth with
  | nil => rfl
  | cons b bs ih =>
    cases b with
    | opening => exact ih (depth + 1)
    | closing =>
      cases depth with
      | zero => rfl
      | succ depth => exact ih depth

theorem openings_append (bs cs : List Bracket) : openings (bs ++ cs) = openings bs + openings cs :=
  List.count_append

/-- Brackets that close none in front of them leave those open and open more behind them. -/
theorem opened_append (bs : List Bracket) {cs : List Bracket} {depth : Nat} (h : level 0 cs = some depth) :
    ∃ inner, opened (bs ++ cs) = opened bs ++ inner ∧ inner.length = depth := by
  induction cs using List.reverseRecOn generalizing depth with
  | nil =>
    cases h
    exact ⟨[], by simp, rfl⟩
  | append_singleton cs b ih =>
    rw [level_append] at h
    obtain ⟨last, hlast, hb⟩ := Option.bind_eq_some_iff.mp h
    obtain ⟨inner, hopened, hlength⟩ := ih hlast
    rw [← List.append_assoc]
    cases b with
    | opening =>
      cases hb
      refine ⟨inner ++ [openings (bs ++ cs)], ?_, by simp [hlength]⟩
      rw [opened_concat_opening, hopened, List.append_assoc]
    | closing =>
      cases last with
      | zero => cases hb
      | succ last =>
        cases hb
        have hne : inner ≠ [] := List.ne_nil_of_length_eq_add_one hlength
        refine ⟨inner.dropLast, ?_, by simp [hlength]⟩
        rw [opened_concat_closing, hopened, List.dropLast_append_of_ne_nil hne]

theorem lt_openings_of_mem_opened {bs : List Bracket} {n : Nat} (h : n ∈ opened bs) : n < openings bs := by
  induction bs using List.reverseRecOn with
  | nil => cases h
  | append_singleton bs b ih =>
    rw [openings_append]
    cases b with
    | opening =>
      rw [opened_concat_opening] at h
      rcases List.mem_append.mp h with h | h
      · exact Nat.lt_add_right _ (ih h)
      · rw [List.mem_singleton.mp h]
        exact Nat.lt_succ_self _
    | closing =>
      rw [opened_concat_closing] at h
      exact Nat.lt_add_right _ (ih (List.mem_of_mem_dropLast h))

/-- A bracket that was opened in front of some more is open behind them only if it was before. -/
theorem mem_opened_of_append {bs cs : List Bracket} {n : Nat} (h : n ∈ opened (bs ++ cs)) (hn : n < openings bs) :
    n ∈ opened bs := by
  induction cs using List.reverseRecOn with
  | nil => rwa [List.append_nil] at h
  | append_singleton cs b ih =>
    rw [← List.append_assoc] at h
    cases b with
    | opening =>
      rw [opened_concat_opening, List.mem_append, List.mem_singleton] at h
      rcases h with h | h
      · exact ih h
      · rw [openings_append] at h
        omega
    | closing =>
      rw [opened_concat_closing] at h
      exact ih (List.mem_of_mem_dropLast h)

/-- Where a list closes more brackets than it opens, one of them closes the innermost bracket in front of it. -/
theorem exists_closing {α : Type} {bracket? : α → Option Bracket} {xs : List α} (depth : Nat) {outer last : Nat}
    (hlast : last ≤ outer) (h : level (outer + depth + 1) (xs.filterMap bracket?) = some last) :
    ∃ inside x after, xs = inside ++ x :: after ∧ bracket? x = some .closing ∧
      level depth (inside.filterMap bracket?) = some 0 := by
  -- Of the brackets that are open, `depth` were opened in the list; with none of them left a closing one is it.
  induction xs generalizing depth with
  | nil =>
    simp only [List.filterMap_nil, level, Option.some.injEq] at h
    omega
  | cons x xs ih =>
    cases hx : bracket? x with
    | none =>
      rw [List.filterMap_cons_none hx] at h
      obtain ⟨inside, y, after, rfl, hy, hlevel⟩ := ih depth h
      exact ⟨x :: inside, y, after, rfl, hy, by rwa [List.filterMap_cons_none hx]⟩
    | some b =>
      rw [List.filterMap_cons_some hx] at h
      cases b with
      | opening =>
        obtain ⟨inside, y, after, rfl, hy, hlevel⟩ := ih (depth + 1) h
        exact ⟨x :: inside, y, after, rfl, hy, by rwa [List.filterMap_cons_some hx]⟩
      | closing =>
        cases depth with
        | zero => exact ⟨[], x, xs, rfl, hx, rfl⟩
        | succ depth =>
          obtain ⟨inside, y, after, rfl, hy, hlevel⟩ := ih depth h
          exact ⟨x :: inside, y, after, rfl, hy, by rwa [List.filterMap_cons_some hx]⟩

/-- The brackets in front of an open one are those that were open where it was opened. -/
theorem exists_opening {α : Type} {bracket? : α → Option Bracket} {xs : List α} {outer inner : List Nat} {n : Nat}
    (h : opened (xs.filterMap bracket?) = outer ++ n :: inner) :
    ∃ before x after, xs = before ++ x :: after ∧ bracket? x = some .opening ∧
      openings (before.filterMap bracket?) = n ∧ opened (before.filterMap bracket?) = outer := by
  induction xs using List.reverseRecOn generalizing inner with
  | nil => cases outer <;> cases h
  | append_singleton xs x ih =>
    -- Where `n` was open in front of the last event, its opening is the one that it had there.
    have earlier : ∀ {inner}, opened (xs.filterMap bracket?) = outer ++ n :: inner →
        ∃ before y after, xs ++ [x] = before ++ y :: after ∧ bracket? y = some .opening ∧
          openings (before.filterMap bracket?) = n ∧ opened (before.filterMap bracket?) = outer := fun h => by
      obtain ⟨before, y, after, rfl, hy, hn, houter⟩ := ih h
      exact ⟨before, y, after ++ [x], by simp, hy, hn, houter⟩
    cases hx : bracket? x with
    | none =>
      rw [List.filterMap_append, List.filterMap_cons_none hx, List.filterMap_nil, List.append_nil] at h
      exact earlier h
    | some b =>
      rw [List.filterMap_append, List.filterMap_cons_some hx, List.filterMap_nil] at h
      cases b with
      | opening =>
        rw [opened_concat_opening] at h
        rcases List.eq_nil_or_concat inner with rfl | ⟨inner, last, rfl⟩
        · obtain ⟨houter, hn⟩ := List.append_inj' h rfl
          cases hn
          exact ⟨xs, x, [], rfl, hx, rfl, houter⟩
        · rw [List.concat_eq_append, ← List.cons_append, ← List.append_assoc] at h
          exact earlier (List.append_inj' h rfl).1
      | closing =>
        rw [opened_concat_closing] at h
        obtain ⟨last, hlast⟩ : ∃ last, opened (xs.filterMap bracket?) = (outer ++ n :: inner) ++ [last] := by
          have hne : opened (xs.filterMap bracket?) ≠ [] := fun hnil => by
            rw [hnil] at h
            cases outer <;> cases h
          exact ⟨_, by rw [← h]; exact (List.dropLast_append_getLast hne).symm⟩
        rw [List.append_assoc, List.cons_append] at hlast
        exact earlier hlast

end Bracket

end Dotwork
