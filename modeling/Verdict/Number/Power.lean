/-!
# Powers of two and of ten

The sizes of binary and of decimal numbers, and the laws that rounding needs.
-/
namespace Verdict

def twoPow (k : Nat) : Nat := Nat.pow 2 k

def tenPow (k : Nat) : Nat := Nat.pow 10 k

theorem twoPow_pos (k : Nat) : 0 < twoPow k := Nat.two_pow_pos k

theorem tenPow_pos (k : Nat) : 0 < tenPow k := Nat.pow_pos (by decide)

theorem twoPow_add (j k : Nat) : twoPow (j + k) = twoPow j * twoPow k := Nat.pow_add 2 j k

theorem twoPow_le_twoPow {j k : Nat} (h : j ≤ k) : twoPow j ≤ twoPow k :=
  Nat.pow_le_pow_right (by decide) h

theorem twoPow_lt_twoPow {j k : Nat} (h : j < k) : twoPow j < twoPow k :=
  Nat.pow_lt_pow_right (by decide) h

theorem twoPow_dvd_twoPow {j k : Nat} (h : j ≤ k) : twoPow j ∣ twoPow k := Nat.pow_dvd_pow 2 h

theorem log2_twoPow (k : Nat) : (twoPow k).log2 = k := Nat.log2_two_pow

theorem log2_lt_iff {n k : Nat} (h : n ≠ 0) : n.log2 < k ↔ n < twoPow k := Nat.log2_lt h

theorem lt_twoPow_log2_succ (n : Nat) : n < twoPow (n.log2 + 1) := Nat.lt_log2_self

theorem log2_le_of_le_twoPow {n k : Nat} (h : n ≤ twoPow k) : n.log2 ≤ k := by
  rcases Nat.eq_zero_or_pos n with rfl | hpos
  · simp
  · rw [← Nat.lt_succ_iff, log2_lt_iff (Nat.ne_of_gt hpos)]
    exact Nat.lt_of_le_of_lt h (twoPow_lt_twoPow (Nat.lt_succ_self k))

theorem log2_mul_twoPow_le (n k : Nat) : (n * twoPow k).log2 ≤ n.log2 + 1 + k := by
  apply log2_le_of_le_twoPow
  rw [twoPow_add]
  exact Nat.mul_le_mul_right _ (Nat.le_of_lt (lt_twoPow_log2_succ n))

end Verdict
