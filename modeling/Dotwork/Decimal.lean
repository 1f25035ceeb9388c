/-! Integers in decimal: ASCII digits without zeros in front, and a minus before a negative one. -/

namespace Dotwork.Decimal

/-- The decimal text of an integer. -/
def chars (n : Int) : List Char :=
  if n < 0 then '-' :: Nat.toDigits 10 n.natAbs else Nat.toDigits 10 n.natAbs

theorem chars_ofNat (n : Nat) : chars n = Nat.toDigits 10 n := by
  simp [chars]

theorem chars_neg (n : Nat) (h : 0 < n) : chars (-n) = '-' :: Nat.toDigits 10 n := by
  simp [chars]
  omega

end Dotwork.Decimal
