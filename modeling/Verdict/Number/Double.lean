import Verdict.Number.Power

/-!
# Finite doubles

The finite numbers of the binary64 format. Each is a whole number of ticks of
`2 ^ -1074` with a sign, so that order and truncation are those of the integers.
-/
namespace Verdict

/-- Magnitudes in ticks that binary64 holds: below `2 ^ 1024`, with 53 significant bits. -/
def Representable (n : Nat) : Prop := n.log2 < 2098 ∧ twoPow (n.log2 - 52) ∣ n

instance (n : Nat) : Decidable (Representable n) := inferInstanceAs (Decidable (_ ∧ _))

structure Double where
  negative : Bool
  magnitude : Nat
  representable : Representable magnitude
deriving DecidableEq

/-- The integer nearest to `num / den`, a tie going to the even one. -/
def nearest (num den : Nat) : Nat :=
  if 2 * (num % den) < den ∨ 2 * (num % den) = den ∧ num / den % 2 = 0 then num / den
  else num / den + 1

/-- The ratio rounded to 53 significant bits, or to a whole number when it is small. -/
def roundTicks (num den : Nat) : Nat :=
  let unit := twoPow ((num / den).log2 - 52)
  nearest num (den * unit) * unit

theorem nearest_le (num den : Nat) : nearest num den ≤ num / den + 1 := by
  unfold nearest
  split <;> omega

theorem roundTicks_eq (num den : Nat) :
    ∃ k, k ≤ twoPow 53 ∧ roundTicks num den = k * twoPow ((num / den).log2 - 52) := by
  refine ⟨_, ?_, rfl⟩
  refine Nat.le_trans (nearest_le _ _) ?_
  rw [← Nat.div_div_eq_div_mul]
  have h := lt_twoPow_log2_succ (num / den)
  have : num / den / twoPow ((num / den).log2 - 52) < twoPow 53 := by
    rw [Nat.div_lt_iff_lt_mul (twoPow_pos _), ← twoPow_add]
    exact Nat.lt_of_lt_of_le h (twoPow_le_twoPow (by omega))
  omega

theorem dvd_roundTicks (num den : Nat) :
    twoPow ((roundTicks num den).log2 - 52) ∣ roundTicks num den := by
  obtain ⟨k, hk, he⟩ := roundTicks_eq num den
  rw [he]
  generalize (num / den).log2 - 52 = s
  rcases Nat.eq_zero_or_pos k with rfl | hpos
  · simp
  rcases Nat.lt_or_eq_of_le hk with hlt | rfl
  · have hne : k * twoPow s ≠ 0 := Nat.ne_of_gt (Nat.mul_pos hpos (twoPow_pos s))
    have : (k * twoPow s).log2 < 53 + s := by
      rw [log2_lt_iff hne, twoPow_add]
      exact Nat.mul_lt_mul_of_pos_right hlt (twoPow_pos s)
    exact Nat.dvd_trans (twoPow_dvd_twoPow (by omega)) (Nat.dvd_mul_left _ _)
  · rw [← twoPow_add, log2_twoPow]
    exact twoPow_dvd_twoPow (by omega)

theorem log2_roundTicks_le (num den : Nat) :
    (roundTicks num den).log2 ≤ 53 + ((num / den).log2 - 52) := by
  obtain ⟨k, hk, he⟩ := roundTicks_eq num den
  apply log2_le_of_le_twoPow
  rw [he, twoPow_add]
  exact Nat.mul_le_mul_right _ hk

namespace Double

/-- The number itself, in ticks. -/
def value (x : Double) : Int := if x.negative then -(x.magnitude : Int) else x.magnitude

/-- Doubles compare as numbers, so the two zeros are equal. -/
instance : BEq Double := ⟨fun x y => x.value == y.value⟩

instance : LT Double := ⟨fun x y => x.value < y.value⟩
instance : LE Double := ⟨fun x y => x.value ≤ y.value⟩
instance (x y : Double) : Decidable (x < y) := inferInstanceAs (Decidable (x.value < y.value))
instance (x y : Double) : Decidable (x ≤ y) := inferInstanceAs (Decidable (x.value ≤ y.value))

def zero (negative : Bool) : Double := ⟨negative, 0, by decide, Nat.dvd_zero _⟩

/-- The double nearest to `num / den` ticks, if that is finite. -/
def ofTicks? (negative : Bool) (num den : Nat) : Option Double :=
  if h : (roundTicks num den).log2 < 2098 then
    some ⟨negative, roundTicks num den, h, dvd_roundTicks num den⟩
  else none

theorem log2_ofInt_lt {n : Nat} (h : n ≤ 0x10000000000000000) :
    (roundTicks (n * twoPow 1074) 1).log2 < 2098 := by
  have h₁ := log2_roundTicks_le (n * twoPow 1074) 1
  have h₂ := log2_mul_twoPow_le n 1074
  have h₃ : n.log2 ≤ 64 := log2_le_of_le_twoPow h
  rw [Nat.div_one] at h₁
  omega

/-- The double nearest to an integer of at most 64 bits. -/
def ofInt (n : Int) (h : n.natAbs ≤ 0x10000000000000000) : Double :=
  ⟨decide (n < 0), roundTicks (n.natAbs * twoPow 1074) 1, log2_ofInt_lt h, dvd_roundTicks _ _⟩

/-- The integer part, towards zero. -/
def trunc (x : Double) : Int := x.value.tdiv (twoPow 1074)

end Double

/-- A decimal numeral: `digits * 10 ^ exponent` under a sign. -/
structure Decimal where
  negative : Bool
  digits : Nat
  exponent : Int
deriving DecidableEq

namespace Decimal

/-- The numeral as a ratio of ticks. -/
def ratio (digits : Nat) (exponent : Int) : Nat × Nat :=
  if exponent < 0 then (digits * twoPow 1074, tenPow exponent.natAbs)
  else (digits * tenPow exponent.natAbs * twoPow 1074, 1)

/-- The magnitude, in ticks, of the nearest double. -/
def ticks (digits : Nat) (exponent : Int) : Nat :=
  let (num, den) := ratio digits exponent
  roundTicks num den

/--
The nearest double, if that is finite. A numeral of `10 ^ 310` or more has none,
and one below `10 ^ -330` rounds to zero, so neither power is computed.
-/
def toDouble? (d : Decimal) : Option Double :=
  let places : Int := (Nat.toDigits 10 d.digits).length + d.exponent
  if d.digits = 0 then some (.zero d.negative)
  else if 310 < places then none
  else if places < -330 then some (.zero d.negative)
  else
    let (num, den) := ratio d.digits d.exponent
    Double.ofTicks? d.negative num den

end Decimal
end Verdict
