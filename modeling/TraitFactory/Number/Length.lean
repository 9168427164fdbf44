import TraitFactory.Number.Shortest

/-!
# Lengths of numbers

Whole numbers are read and written in decimal only up to a length. Longer ones can be computed
with, but have no text.
-/

namespace TraitFactory.Number

/-- The most decimal digits that a whole number is read or written with. -/
def maxDigits : Nat := 4300

/-- **Whether a number has a decimal text.** Numbers of few binary digits have one, which is seen
without computing the power. -/
def isWritable (n : Int) : Bool := n.natAbs.log2 < 3 * maxDigits || n.natAbs < pow10 maxDigits

/-- A number of less than three binary digits for each decimal one is small enough. -/
theorem lt_pow10_of_log2_lt {n d : Nat} (h : n.log2 < 3 * d) : n < pow10 d := by
  by_cases hn : n = 0
  · rw [hn]
    exact Nat.pow_pos (by decide)
  · calc n < 2 ^ (3 * d) := (Nat.log2_lt hn).1 h
      _ = (2 ^ 3) ^ d := Nat.pow_mul 2 3 d
      _ ≤ pow10 d := Nat.pow_le_pow_left (by decide) d

theorem isWritable_iff (n : Int) : isWritable n ↔ n.natAbs < pow10 maxDigits := by
  simp only [isWritable, Bool.or_eq_true, decide_eq_true_eq, or_iff_right_iff_imp]
  exact lt_pow10_of_log2_lt

end TraitFactory.Number
