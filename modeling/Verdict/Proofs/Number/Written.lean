import Mathlib.Tactic.Ring
import Verdict.Number.Layout
import Verdict.Number.Literal
import Verdict.Proofs.Text.Split

/-!
# Written doubles read back

Rounding asks for nothing but the value of a ratio, and leaves a number alone that a double holds.
So the shortest decimal of a double rounds to that double, and so does the text that a layout makes
of the decimal. Different doubles have different texts, the two zeros included.
-/
namespace Verdict

theorem nearest_mul_mul {k : Nat} (hk : 0 < k) (num den : Nat) :
    nearest (k * num) (k * den) = nearest num den := by
  have hlt : 2 * (k * (num % den)) < k * den ↔ 2 * (num % den) < den := by
    rw [Nat.mul_left_comm]
    exact Nat.mul_lt_mul_left hk
  have heq : 2 * (k * (num % den)) = k * den ↔ 2 * (num % den) = den := by
    rw [Nat.mul_left_comm]
    exact Nat.mul_right_inj (Nat.ne_of_gt hk)
  simp only [nearest, Nat.mul_mod_mul_left, Nat.mul_div_mul_left _ _ hk, hlt, heq]

theorem roundTicks_mul_mul {k : Nat} (hk : 0 < k) (num den : Nat) :
    roundTicks (k * num) (k * den) = roundTicks num den := by
  simp only [roundTicks, Nat.mul_div_mul_left _ _ hk, Nat.mul_assoc, nearest_mul_mul hk]

/-- Equal ratios are rounded alike. -/
theorem roundTicks_congr {num den num' den' : Nat} (hden : 0 < den) (hden' : 0 < den')
    (h : num * den' = num' * den) : roundTicks num den = roundTicks num' den' := by
  calc roundTicks num den = roundTicks (den' * num) (den' * den) :=
        (roundTicks_mul_mul hden' num den).symm
    _ = roundTicks (den * num') (den * den') := by
        rw [Nat.mul_comm den' num, h, Nat.mul_comm num' den, Nat.mul_comm den' den]
    _ = roundTicks num' den' := roundTicks_mul_mul hden num' den'

theorem roundTicks_of_representable {n : Nat} (h : Representable n) : roundTicks n 1 = n := by
  rw [roundTicks, Nat.div_one, Nat.one_mul]
  have hunit : 0 < twoPow (n.log2 - 52) := twoPow_pos _
  have hzero : n % twoPow (n.log2 - 52) = 0 := Nat.mod_eq_zero_of_dvd h.2
  have hdown : nearest n (twoPow (n.log2 - 52)) = n / twoPow (n.log2 - 52) := by
    rw [nearest, if_pos (.inl (by rw [hzero]; exact hunit))]
  rw [hdown, Nat.div_mul_cancel h.2]

theorem twoPow_dvd_tenPow (k : Nat) : twoPow k ∣ tenPow k := pow_dvd_pow_of_dvd (by decide) k

theorem tenPow_succ (k : Nat) : tenPow (k + 1) = tenPow k * 10 := rfl

namespace Decimal

theorem ratio_snd_pos (digits : Nat) (exponent : Int) : 0 < (ratio digits exponent).2 := by
  unfold ratio
  split
  · exact tenPow_pos _
  · exact Nat.one_pos

theorem ticks_eq (digits : Nat) (exponent : Int) :
    ticks digits exponent = roundTicks (ratio digits exponent).1 (ratio digits exponent).2 :=
  rfl

theorem ticks_congr {digits digits' : Nat} {exponent exponent' : Int}
    (h : (ratio digits exponent).1 * (ratio digits' exponent').2 =
      (ratio digits' exponent').1 * (ratio digits exponent).2) :
    ticks digits exponent = ticks digits' exponent' :=
  roundTicks_congr (ratio_snd_pos _ _) (ratio_snd_pos _ _) h

theorem ratio_natCast (digits k : Nat) :
    ratio digits k = (digits * tenPow k * twoPow 1074, 1) := by
  rw [ratio, if_neg (by omega), Int.natAbs_natCast]

theorem ratio_neg (digits k : Nat) :
    ratio digits (-k) = (digits * twoPow 1074, tenPow k) := by
  by_cases hk : k = 0
  · subst hk
    simp [ratio, tenPow]
  · rw [ratio, if_pos (by omega), Int.natAbs_neg, Int.natAbs_natCast]

/-- A zero at the end counts in the exponent. -/
theorem ticks_mul_ten (digits : Nat) (exponent : Int) :
    ticks (digits * 10) exponent = ticks digits (exponent + 1) := by
  refine ticks_congr ?_
  rcases lt_or_ge exponent 0 with h | h
  · obtain ⟨k, rfl⟩ : ∃ k : Nat, exponent = -(k + 1 : Nat) := ⟨exponent.natAbs - 1, by omega⟩
    have hsucc : -((k + 1 : Nat) : Int) + 1 = -(k : Int) := by omega
    rw [hsucc, ratio_neg, ratio_neg, tenPow_succ]
    ring
  · obtain ⟨k, rfl⟩ : ∃ k : Nat, exponent = k := ⟨exponent.natAbs, by omega⟩
    have hsucc : (k : Int) + 1 = (k + 1 : Nat) := rfl
    rw [hsucc, ratio_natCast, ratio_natCast, tenPow_succ]
    ring

theorem ticks_mul_tenPow (digits : Nat) (exponent : Int) (k : Nat) :
    ticks (digits * tenPow k) exponent = ticks digits (exponent + k) := by
  induction k generalizing exponent with
  | zero => simp [tenPow]
  | succ k ih =>
    rw [tenPow_succ, ← Nat.mul_assoc, ticks_mul_ten, ih]
    congr 1
    omega

theorem ticks_zero (exponent : Int) : ticks 0 exponent = 0 := by
  have hround (den : Nat) (hden : 0 < den) : roundTicks 0 den = 0 := by
    simp [roundTicks, nearest, twoPow, hden]
  have hnum : (ratio 0 exponent).1 = 0 := by
    unfold ratio
    split <;> simp
  rw [ticks_eq, hnum, hround _ (ratio_snd_pos _ _)]

theorem ticks_normalize (digits : Nat) (exponent : Int) :
    ticks (normalize digits exponent).1 (normalize digits exponent).2 = ticks digits exponent := by
  induction digits, exponent using normalize.induct with
  | case1 exponent =>
    rw [normalize, dif_pos rfl, ticks_zero, ticks_zero]
  | case2 digits exponent h hzero ih =>
    rw [normalize, dif_neg h, if_pos hzero, ih, ← ticks_mul_ten,
      Nat.div_mul_cancel (Nat.dvd_of_mod_eq_zero hzero)]
  | case3 digits exponent h hzero =>
    rw [normalize, dif_neg h, if_neg hzero]

end Decimal

namespace Double

theorem ticks_exactDecimal {n : Nat} (h : Representable n) :
    Decimal.ticks (exactDecimal n).1 (exactDecimal n).2 = n := by
  have hdigits : n * tenPow 1074 / twoPow 1074 * twoPow 1074 = n * tenPow 1074 :=
    Nat.div_mul_cancel (Nat.dvd_mul_left_of_dvd (twoPow_dvd_tenPow 1074) n)
  have hexponent : (exactDecimal n).2 = -(1074 : Nat) := rfl
  calc Decimal.ticks (exactDecimal n).1 (exactDecimal n).2
      = roundTicks (n * tenPow 1074) (tenPow 1074) := by
        rw [hexponent, Decimal.ticks_eq, Decimal.ratio_neg, exactDecimal, hdigits]
    _ = roundTicks n 1 := roundTicks_congr (tenPow_pos 1074) Nat.one_pos (Nat.mul_one _)
    _ = n := roundTicks_of_representable h

theorem ticks_firstBack {n : Nat} (h : Representable n) :
    Decimal.ticks (firstBack n).1 (firstBack n).2 = n := by
  unfold firstBack
  cases hfound : (candidates n).find? (readsBack n) with
  | none =>
    rw [Option.getD_none]
    exact ticks_exactDecimal h
  | some candidate =>
    have hback : readsBack n candidate = true := List.find?_some hfound
    rw [Option.getD_some]
    exact beq_iff_eq.1 hback

/-- The shortest decimal of a double rounds to the double. -/
theorem ticks_shortest (x : Double) :
    Decimal.ticks x.shortest.1 x.shortest.2 = x.magnitude := by
  rw [shortest, Decimal.ticks_normalize, ticks_firstBack x.representable]

end Double

/-! The text of a decimal, read. -/

/-- The mark of a negative numeral. -/
def signMark (negative : Bool) : List Char := if negative then ['-'] else []

theorem splitSign_signMark (negative : Bool) {cs : List Char}
    (h : ∀ c ∈ cs.head?, c.isDigit = true) :
    splitSign (signMark negative ++ cs) = (negative, cs) := by
  cases negative with
  | true => rfl
  | false =>
    change splitSign cs = (false, cs)
    unfold splitSign
    split
    · exact absurd (h '-' rfl) (by decide)
    · exact absurd (h '+' rfl) (by decide)
    · rfl

namespace Decimal
variable {whole fraction rest : List Char}

theorem isDigit_of_mem_head?_append (hne : whole ≠ []) (hwhole : ∀ c ∈ whole, c.isDigit = true) :
    ∀ c ∈ (whole ++ rest).head?, c.isDigit = true := by
  cases whole with
  | nil => exact absurd rfl hne
  | cons d ds =>
    rintro _ ⟨⟩
    exact hwhole d List.mem_cons_self

/-- A numeral with a digit in front of its point, and an exponent or nothing behind its digits. -/
theorem read?_point (negative : Bool) (hne : whole ≠ []) (hwhole : ∀ c ∈ whole, c.isDigit = true)
    (hfraction : ∀ c ∈ fraction, c.isDigit = true)
    (hrest : ∀ c ∈ rest.head?, c.isDigit = false) :
    read? (signMark negative ++ (whole ++ '.' :: (fraction ++ rest))) =
      (exponent? rest).map (ofParts negative whole fraction) := by
  have hpoint : ∀ c ∈ ('.' :: (fraction ++ rest)).head?, c.isDigit = false := by
    rintro _ ⟨⟩
    rfl
  obtain ⟨hdigits, hbehind⟩ := Text.takeWhile_dropWhile_append hwhole hpoint
  obtain ⟨hdigits', hbehind'⟩ := Text.takeWhile_dropWhile_append hfraction hrest
  simp only [read?, splitSign_signMark negative (isDigit_of_mem_head?_append hne hwhole), hdigits,
    hbehind, fractionAndRest, hdigits', hbehind', List.isEmpty_eq_false_iff.2 hne, Bool.false_and]
  rfl

/-- A numeral without a point. -/
theorem read?_whole (negative : Bool) (hne : whole ≠ []) (hwhole : ∀ c ∈ whole, c.isDigit = true)
    (hrest : ∀ c ∈ rest.head?, c.isDigit = false ∧ c ≠ '.') :
    read? (signMark negative ++ (whole ++ rest)) =
      (exponent? rest).map (ofParts negative whole []) := by
  obtain ⟨hdigits, hbehind⟩ := Text.takeWhile_dropWhile_append hwhole fun c hc => (hrest c hc).1
  have hnone : fractionAndRest rest = ([], rest) := by
    unfold fractionAndRest
    split
    · exact absurd rfl (hrest '.' rfl).2
    · rfl
  simp only [read?, splitSign_signMark negative (isDigit_of_mem_head?_append hne hwhole), hdigits,
    hbehind, hnone, List.isEmpty_eq_false_iff.2 hne, Bool.false_and]
  rfl

theorem read?_point_end (negative : Bool) (hne : whole ≠ [])
    (hwhole : ∀ c ∈ whole, c.isDigit = true) (hfraction : ∀ c ∈ fraction, c.isDigit = true) :
    read? (signMark negative ++ (whole ++ '.' :: fraction)) =
      some (ofParts negative whole fraction 0) := by
  have hend : ∀ c ∈ ([] : List Char).head?, c.isDigit = false := nofun
  have hread := read?_point negative hne hwhole hfraction hend
  rwa [List.append_nil] at hread

theorem read?_whole_end (negative : Bool) (hne : whole ≠ [])
    (hwhole : ∀ c ∈ whole, c.isDigit = true) :
    read? (signMark negative ++ whole) = some (ofParts negative whole [] 0) := by
  have hend : ∀ c ∈ ([] : List Char).head?, c.isDigit = false ∧ c ≠ '.' := nofun
  have hread := read?_whole negative hne hwhole hend
  rwa [List.append_nil] at hread

theorem exponent?_written (power : Int) :
    exponent? ('e' :: (if power < 0 then '-' else '+') :: Nat.toDigits 10 power.natAbs) =
      some power := by
  rw [exponent?, if_pos (.inl rfl), integer?]
  by_cases h : power < 0
  · rw [if_pos h]
    simp only [splitSign, digits?_toDigits, Option.map_some, signed, if_true]
    congr 1
    omega
  · rw [if_neg h]
    simp only [splitSign, digits?_toDigits, Option.map_some, signed]
    congr 1
    simp
    omega

/-- The text is a numeral of that sign, which rounds to so many ticks. -/
def Reads (cs : List Char) (negative : Bool) (magnitude : Nat) : Prop :=
  ∃ d, read? cs = some d ∧ d.negative = negative ∧ ticks d.digits d.exponent = magnitude

theorem ofDigitChars_zeros (n k : Nat) :
    Nat.ofDigitChars 10 (Nat.toDigits 10 n ++ List.replicate k '0') 0 = n * tenPow k := by
  rw [Nat.ofDigitChars_append, Nat.ofDigitChars_ten_toDigits, Nat.ofDigitChars_replicate_zero,
    Nat.mul_comm]
  rfl

end Decimal

namespace Layout
open Decimal

theorem isDigit_of_mem_replicate {k : Nat} : ∀ c ∈ List.replicate k '0', c.isDigit = true := by
  intro c hc
  rw [List.eq_of_mem_replicate hc]
  rfl

theorem reads_inFull_natCast (l : Layout) (negative : Bool) (n k : Nat) :
    Reads (signMark negative ++ l.inFull (Nat.toDigits 10 n) k) negative (ticks n k) := by
  have hne : Nat.toDigits 10 n ++ List.replicate k '0' ≠ [] := by simp [Nat.toDigits_ne_nil]
  have hwhole : ∀ c ∈ Nat.toDigits 10 n ++ List.replicate k '0', c.isDigit = true := fun c hc =>
    (List.mem_append.1 hc).elim isDigit_of_mem_toDigits (isDigit_of_mem_replicate c)
  rw [inFull, if_pos (Int.natCast_nonneg k), Int.toNat_natCast]
  cases l.pointZero with
  | true =>
    refine ⟨_, read?_point_end negative hne hwhole (isDigit_of_mem_replicate (k := 1)), rfl, ?_⟩
    have hdigits : Nat.toDigits 10 n ++ List.replicate k '0' ++ ['0'] =
        Nat.toDigits 10 n ++ List.replicate (k + 1) '0' := by
      rw [List.append_assoc, List.replicate_succ']
    simp only [ofParts]
    rw [hdigits, ofDigitChars_zeros, ticks_mul_tenPow]
    congr 1
    simp
  | false =>
    rw [if_neg Bool.false_ne_true, List.append_nil]
    refine ⟨_, read?_whole_end negative hne hwhole, rfl, ?_⟩
    simp only [ofParts]
    rw [List.append_nil, ofDigitChars_zeros, ticks_mul_tenPow]
    congr 1
    simp

theorem reads_inFull_of_neg (l : Layout) (negative : Bool) (n : Nat) {exponent : Int}
    (h : exponent < 0) :
    Reads (signMark negative ++ l.inFull (Nat.toDigits 10 n) exponent) negative
      (ticks n exponent) := by
  have hmem : ∀ c ∈ Nat.toDigits 10 n, c.isDigit = true := fun _ => isDigit_of_mem_toDigits
  rw [inFull, if_neg (by omega)]
  by_cases hlength : (Nat.toDigits 10 n).length ≤ exponent.natAbs
  · rw [if_pos hlength]
    let zeros := List.replicate (exponent.natAbs - (Nat.toDigits 10 n).length) '0'
    have hfraction : ∀ c ∈ zeros ++ Nat.toDigits 10 n, c.isDigit = true := fun c hc =>
      (List.mem_append.1 hc).elim (isDigit_of_mem_replicate c) (hmem c)
    change Reads (signMark negative ++ (['0'] ++ '.' :: (zeros ++ Nat.toDigits 10 n))) _ _
    refine ⟨_, read?_point_end negative (List.cons_ne_nil '0' [])
      (isDigit_of_mem_replicate (k := 1)) hfraction, rfl, ?_⟩
    have hvalue : Nat.ofDigitChars 10 (['0'] ++ (zeros ++ Nat.toDigits 10 n)) 0 = n := by
      rw [← List.append_assoc, show ['0'] ++ zeros = List.replicate _ '0' from
        List.replicate_succ.symm, Nat.ofDigitChars_append, Nat.ofDigitChars_replicate_zero,
        Nat.mul_zero, Nat.ofDigitChars_ten_toDigits]
    refine congrArg₂ ticks hvalue ?_
    simp only [ofParts, zeros, List.length_append, List.length_replicate]
    omega
  · rw [if_neg hlength]
    let front := (Nat.toDigits 10 n).length - exponent.natAbs
    have hfront : (Nat.toDigits 10 n).take front ≠ [] := by
      refine List.ne_nil_of_length_pos ?_
      rw [List.length_take]
      omega
    refine ⟨_, read?_point_end negative hfront (fun c hc => hmem c (List.mem_of_mem_take hc))
      fun c hc => hmem c (List.mem_of_mem_drop (i := front) hc), rfl, ?_⟩
    simp only [ofParts, List.take_append_drop, Nat.ofDigitChars_ten_toDigits]
    congr 1
    rw [List.length_drop]
    omega

theorem reads_inFull (l : Layout) (negative : Bool) (n : Nat) (exponent : Int) :
    Reads (signMark negative ++ l.inFull (Nat.toDigits 10 n) exponent) negative
      (ticks n exponent) := by
  rcases lt_or_ge exponent 0 with h | h
  · exact reads_inFull_of_neg l negative n h
  · obtain ⟨k, rfl⟩ : ∃ k : Nat, exponent = k := ⟨exponent.toNat, by omega⟩
    exact reads_inFull_natCast l negative n k

theorem reads_scientific (negative : Bool) (n : Nat) (exponent : Int) :
    Reads (signMark negative ++ scientific (Nat.toDigits 10 n)
      ((Nat.toDigits 10 n).length - 1 + exponent)) negative (ticks n exponent) := by
  have hmem : ∀ c ∈ Nat.toDigits 10 n, c.isDigit = true := fun _ => isDigit_of_mem_toDigits
  have hvalue : Nat.ofDigitChars 10 (Nat.toDigits 10 n) 0 = n := Nat.ofDigitChars_ten_toDigits
  cases hdigits : Nat.toDigits 10 n with
  | nil => exact absurd hdigits Nat.toDigits_ne_nil
  | cons d fraction =>
    rw [hdigits] at hmem hvalue
    have hd : ∀ c ∈ [d], c.isDigit = true := by
      intro c hc
      exact hmem c (List.mem_cons.2 (.inl (List.mem_singleton.1 hc)))
    generalize hpower : ((d :: fraction).length : Int) - 1 + exponent = power
    have hexponent := exponent?_written power
    cases fraction with
    | nil =>
      refine ⟨ofParts negative [d] [] power, ?_, rfl, ?_⟩
      · refine (read?_whole negative (List.cons_ne_nil d []) hd ?_).trans ?_
        · rintro _ ⟨⟩
          decide
        · rw [hexponent]
          rfl
      · simp only [ofParts]
        rw [List.append_nil, hvalue]
        congr 1
        simp at hpower ⊢
        omega
    | cons d' ds =>
      have hfraction : ∀ c ∈ d' :: ds, c.isDigit = true := fun c hc =>
        hmem c (List.mem_cons_of_mem d hc)
      refine ⟨ofParts negative [d] (d' :: ds) power, ?_, rfl, ?_⟩
      · refine (read?_point negative (List.cons_ne_nil d []) hd hfraction ?_).trans ?_
        · rintro _ ⟨⟩
          rfl
        · rw [hexponent]
          rfl
      · simp only [ofParts]
        rw [List.singleton_append, hvalue]
        congr 1
        simp at hpower ⊢
        omega

theorem write_eq (l : Layout) (x : Double) :
    (l.write x = signMark x.negative ++ l.inFull (Nat.toDigits 10 x.shortest.1) x.shortest.2) ∨
    l.write x = signMark x.negative ++ scientific (Nat.toDigits 10 x.shortest.1)
      ((Nat.toDigits 10 x.shortest.1).length - 1 + x.shortest.2) := by
  rw [write, ← signMark]
  split
  · exact .inl rfl
  · exact .inr rfl

/-- What a layout writes of a double reads back as the double. -/
theorem reads_write (l : Layout) (x : Double) : Reads (l.write x) x.negative x.magnitude := by
  rw [← Double.ticks_shortest]
  rcases write_eq l x with h | h
  · exact h ▸ reads_inFull l x.negative _ _
  · exact h ▸ reads_scientific x.negative _ _

/-- Different doubles are written differently. -/
theorem write_injective (l : Layout) : Function.Injective l.write := by
  intro x y h
  obtain ⟨d, hd, hnegative, hmagnitude⟩ := reads_write l x
  obtain ⟨d', hd', hnegative', hmagnitude'⟩ := reads_write l y
  rw [h, hd', Option.some_inj] at hd
  subst hd
  have hsign : x.negative = y.negative := hnegative.symm.trans hnegative'
  have hticks : x.magnitude = y.magnitude := hmagnitude.symm.trans hmagnitude'
  cases x
  cases y
  cases hsign
  cases hticks
  rfl

/-- The characters of numbers. -/
def isNumeral (c : Char) : Bool := c.isDigit || c = '-' || c = '+' || c = '.' || c = 'e'

theorem isNumeral_of_isDigit {c : Char} (h : c.isDigit) : isNumeral c := by simp [isNumeral, h]

theorem isNumeral_of_mem_toDigits {n : Nat} : ∀ c ∈ Nat.toDigits 10 n, isNumeral c := fun _ hc =>
  isNumeral_of_isDigit (isDigit_of_mem_toDigits hc)

theorem isNumeral_of_mem_signMark {negative : Bool} : ∀ c ∈ signMark negative, isNumeral c := by
  cases negative with
  | true => exact List.forall_mem_singleton.2 rfl
  | false => exact List.forall_mem_nil _

theorem isNumeral_of_mem_inFull (l : Layout) {digits : List Char} (exponent : Int)
    (h : ∀ c ∈ digits, isNumeral c) : ∀ c ∈ l.inFull digits exponent, isNumeral c := by
  have hzeros (k : Nat) : ∀ c ∈ List.replicate k '0', isNumeral c := fun c hc =>
    isNumeral_of_isDigit (isDigit_of_mem_replicate c hc)
  simp only [inFull]
  split
  · refine List.forall_mem_append.2 ⟨List.forall_mem_append.2 ⟨h, hzeros _⟩, ?_⟩
    split
    · exact List.forall_mem_cons.2 ⟨rfl, List.forall_mem_singleton.2 rfl⟩
    · exact List.forall_mem_nil _
  · split
    · exact List.forall_mem_append.2
        ⟨List.forall_mem_cons.2 ⟨rfl, List.forall_mem_cons.2 ⟨rfl, hzeros _⟩⟩, h⟩
    · refine List.forall_mem_append.2 ⟨fun c hc => h c (List.mem_of_mem_take hc), ?_⟩
      exact List.forall_mem_cons.2 ⟨rfl, fun c hc => h c (List.mem_of_mem_drop hc)⟩

theorem isNumeral_of_mem_scientific {digits : List Char} (power : Int)
    (h : ∀ c ∈ digits, isNumeral c) : ∀ c ∈ scientific digits power, isNumeral c := by
  have hsign : isNumeral (if power < 0 then '-' else '+') := by split <;> decide
  have hexponent : ∀ c ∈ 'e' :: (if power < 0 then '-' else '+') ::
      Nat.toDigits 10 power.natAbs, isNumeral c :=
    List.forall_mem_cons.2 ⟨rfl, List.forall_mem_cons.2 ⟨hsign, isNumeral_of_mem_toDigits⟩⟩
  refine List.forall_mem_append.2 ⟨?_, hexponent⟩
  split
  · exact h
  · rw [List.forall_mem_cons] at h
    exact List.forall_mem_cons.2 ⟨h.1, List.forall_mem_cons.2 ⟨rfl, h.2⟩⟩
  · exact List.forall_mem_nil _

theorem isNumeral_of_mem_write (l : Layout) (x : Double) : ∀ c ∈ l.write x, isNumeral c := by
  have hdigits : ∀ c ∈ Nat.toDigits 10 x.shortest.1, isNumeral c := isNumeral_of_mem_toDigits
  rcases write_eq l x with h | h <;> rw [h] <;>
    refine List.forall_mem_append.2 ⟨isNumeral_of_mem_signMark, ?_⟩
  · exact isNumeral_of_mem_inFull l _ hdigits
  · exact isNumeral_of_mem_scientific _ hdigits

theorem point_mem_inFull {l : Layout} (hl : l.pointZero = true) (digits : List Char)
    (exponent : Int) : '.' ∈ l.inFull digits exponent := by
  simp only [inFull, hl]
  split
  · simp
  · split <;> simp

/-- A layout that keeps points writes every double with a point or an exponent. -/
theorem exists_mark_mem_write {l : Layout} (hl : l.pointZero = true) (x : Double) :
    ∃ c ∈ l.write x, c = '.' ∨ c = 'e' := by
  rcases write_eq l x with h | h <;> rw [h]
  · exact ⟨'.', List.mem_append_right _ (point_mem_inFull hl _ _), .inl rfl⟩
  · exact ⟨'e', List.mem_append_right _ (List.mem_append_right _ List.mem_cons_self), .inr rfl⟩

end Layout
end Verdict
