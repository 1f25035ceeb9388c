/-!
# Machine words

Offsets, columns and dot counts are unsigned words of 64 bits whose addition stops at the greatest word;
counts of a cluster are signed words of the same size.
-/

namespace Dotwork.Word

/-- The greatest unsigned word, 2⁶⁴ - 1. -/
def greatest : Nat :=
  0xFFFF_FFFF_FFFF_FFFF

/-- The greatest signed word, 2⁶³ - 1. -/
def greatestSigned : Nat :=
  0x7FFF_FFFF_FFFF_FFFF

/-- The sum of two words, or the greatest word where the sum is beyond it. -/
def add (a b : Nat) : Nat :=
  min (a + b) greatest

theorem add_le_greatest (a b : Nat) : add a b ≤ greatest :=
  Nat.min_le_right _ _

theorem le_add {a b : Nat} (h : a ≤ greatest) : a ≤ add a b :=
  Nat.le_min.2 ⟨Nat.le_add_right a b, h⟩

theorem add_assoc (a b c : Nat) : add (add a b) c = add a (add b c) := by
  unfold add
  omega

theorem add_eq (a b : Nat) (h : a + b ≤ greatest) : add a b = a + b :=
  Nat.min_eq_left h

end Dotwork.Word
