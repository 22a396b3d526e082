import Verdict.Number.Double

/-!
# Rounding keeps powers of two

A number is not rounded below a power of two that it reaches. So an integer that 64 bits with a sign
cannot hold is still too large after it became a double.
-/
namespace Verdict

theorem div_le_nearest (num den : Nat) : num / den ≤ nearest num den := by
  unfold nearest
  split <;> omega

theorem twoPow_log2_le {n : Nat} (h : n ≠ 0) : twoPow n.log2 ≤ n := Nat.log2_self_le h

/-- The leading bit of a number stays when it is rounded. -/
theorem twoPow_log2_le_roundTicks {n : Nat} (h : n ≠ 0) : twoPow n.log2 ≤ roundTicks n 1 := by
  have hdvd : twoPow (n.log2 - 52) ∣ twoPow n.log2 := twoPow_dvd_twoPow (Nat.sub_le _ _)
  calc twoPow n.log2 = twoPow n.log2 / twoPow (n.log2 - 52) * twoPow (n.log2 - 52) :=
        (Nat.div_mul_cancel hdvd).symm
    _ ≤ n / twoPow (n.log2 - 52) * twoPow (n.log2 - 52) :=
        Nat.mul_le_mul_right _ (Nat.div_le_div_right (twoPow_log2_le h))
    _ ≤ nearest n (twoPow (n.log2 - 52)) * twoPow (n.log2 - 52) :=
        Nat.mul_le_mul_right _ (div_le_nearest _ _)
    _ = roundTicks n 1 := by rw [roundTicks, Nat.div_one, Nat.one_mul]

theorem twoPow_le_roundTicks {n k : Nat} (h : twoPow k ≤ n) : twoPow k ≤ roundTicks n 1 := by
  have hne : n ≠ 0 := Nat.ne_of_gt (Nat.lt_of_lt_of_le (twoPow_pos k) h)
  have hlog : k ≤ n.log2 := (Nat.le_log2 hne).2 h
  exact Nat.le_trans (twoPow_le_twoPow hlog) (twoPow_log2_le_roundTicks hne)

theorem Double.le_trunc_ofInt {n : Int} (h : n.natAbs ≤ 0x10000000000000000)
    (hn : 0x8000000000000000 ≤ n) : 0x8000000000000000 ≤ (ofInt n h).trunc := by
  have hnat : twoPow 63 ≤ n.natAbs := by
    have : twoPow 63 = 0x8000000000000000 := rfl
    omega
  have hround : twoPow 63 * twoPow 1074 ≤ roundTicks (n.natAbs * twoPow 1074) 1 := by
    rw [← twoPow_add]
    refine twoPow_le_roundTicks ?_
    rw [twoPow_add]
    exact Nat.mul_le_mul_right _ hnat
  have hvalue : (ofInt n h).value = roundTicks (n.natAbs * twoPow 1074) 1 := by
    have hpos : ¬ n < 0 := by omega
    simp [value, ofInt, hpos]
  have hpos : (0 : Int) < twoPow 1074 := Int.natCast_pos.2 (twoPow_pos 1074)
  rw [trunc, hvalue, Int.tdiv_eq_ediv_of_nonneg (Int.natCast_nonneg _)]
  refine (Int.le_ediv_iff_mul_le hpos).2 ?_
  have hle := Int.ofNat_le.2 hround
  rwa [Int.natCast_mul] at hle

end Verdict
