import Verdict.Proofs.Condition.Faults
import Verdict.Proofs.Condition.RoundTrip
import Verdict.Proofs.Number.Numerals

/-!
# Priorities are exact

An integer of 64 bits counts for itself, whether it is given as a number or as text. Any other
number, and text that names one, counts by the integer part of the double nearest to it. What is not
within 64 bits then is refused: nothing wraps, and nothing is replaced by the nearest bound.
-/
namespace Verdict

/-- The integer is what is left of the double without its fraction. -/
structure Double.Truncates (x : Double) (t : Int) : Prop where
  of_nonneg : 0 ≤ x.value → t * twoPow 1074 ≤ x.value ∧ x.value < (t + 1) * twoPow 1074
  of_neg : x.value < 0 → (t - 1) * twoPow 1074 < x.value ∧ x.value ≤ t * twoPow 1074

theorem tdiv_eq_iff_of_nonneg {a b t : Int} (ha : 0 ≤ a) (hb : 0 < b) :
    a.tdiv b = t ↔ t * b ≤ a ∧ a < (t + 1) * b := by
  rw [Int.tdiv_eq_ediv_of_nonneg ha, ← Int.le_ediv_iff_mul_le hb, ← Int.ediv_lt_iff_lt_mul hb]
  omega

theorem tdiv_eq_iff_of_neg {a b t : Int} (ha : a < 0) (hb : 0 < b) :
    a.tdiv b = t ↔ (t - 1) * b < a ∧ a ≤ t * b := by
  have hneg := tdiv_eq_iff_of_nonneg (t := -t) (by omega : 0 ≤ -a) hb
  rw [Int.neg_tdiv, Int.neg_inj] at hneg
  have hlow : (-t + 1) * b = -((t - 1) * b) := by rw [← Int.neg_mul]; congr 1; omega
  have hhigh : -t * b = -(t * b) := Int.neg_mul t b
  rw [hneg, hlow, hhigh]
  omega

theorem Double.trunc_eq_iff {x : Double} {t : Int} : x.trunc = t ↔ x.Truncates t := by
  have hunit : (0 : Int) < twoPow 1074 := Int.natCast_pos.2 (twoPow_pos 1074)
  unfold trunc
  by_cases h : 0 ≤ x.value
  · rw [tdiv_eq_iff_of_nonneg h hunit]
    exact ⟨fun ht => ⟨fun _ => ht, fun hneg => absurd hneg (by omega)⟩, fun ht => ht.of_nonneg h⟩
  · have hneg : x.value < 0 := by omega
    rw [tdiv_eq_iff_of_neg hneg hunit]
    exact ⟨fun ht => ⟨fun hnonneg => absurd hnonneg h, fun _ => ht⟩, fun ht => ht.of_neg hneg⟩

theorem int64?_eq_some_iff {n : Int} {p : Int64} : int64? n = some p ↔ p.toInt = n := by
  unfold int64?
  constructor
  · intro h
    split at h
    · rename_i hn
      cases h
      exact Int64.toInt_ofInt_of_le hn.1 hn.2
    · cases h
  · rintro rfl
    rw [if_pos ⟨p.le_toInt, p.toInt_lt⟩, Int64.ofInt_toInt]

namespace Condition

/-- The integer that a value counts for as a priority. -/
inductive Counts : Json → Int → Prop
  | integer {n : Int} {bounds : -0x8000000000000000 ≤ n ∧ n < 0x10000000000000000}
      (hn : inRange n) : Counts (.number (.integer n bounds)) n
  | number {k : Number} {t : Int} (hother : ∀ n bounds, k = .integer n bounds → ¬ inRange n)
      (hk : k.toDouble.Truncates t) (ht : inRange t) : Counts (.number k) t
  | numeral {s : String} {n : Int} (hs : IntegerText (Text.trim s.toList) n) (hn : inRange n) :
      Counts (.string s) n
  | text {s : String} {x : Double} {t : Int}
      (hother : ∀ n, IntegerText (Text.trim s.toList) n → ¬ inRange n)
      (hs : FloatingText (Text.trim s.toList) (.finite x)) (hx : x.Truncates t) (ht : inRange t) :
      Counts (.string s) t

variable {v : Json} {n : Int} {p : Int64}

theorem int64?_eq_none_iff : int64? n = none ↔ ¬ inRange n := by
  rw [← isSome_int64?, Bool.not_eq_true, Option.isSome_eq_false_iff, Option.isNone_iff_eq_none]

theorem inRange_iff : inRange n = true ↔ -0x8000000000000000 ≤ n ∧ n < 0x8000000000000000 := by
  rw [inRange, decide_eq_true_iff]

theorem inRange_toInt (p : Int64) : inRange p.toInt = true :=
  inRange_iff.2 ⟨p.le_toInt, p.toInt_lt⟩

theorem exists_int64_of_inRange (h : inRange n) : ∃ p : Int64, p.toInt = n := by
  rw [← isSome_int64?, Option.isSome_iff_exists] at h
  obtain ⟨p, hp⟩ := h
  exact ⟨p, int64?_eq_some_iff.1 hp⟩

theorem Counts.inRange (h : Counts v n) : Condition.inRange n := by
  cases h <;> assumption

theorem truncated?_eq_some_iff {x : Double} : truncated? x = some p ↔ x.Truncates p.toInt := by
  rw [truncated?, int64?_eq_some_iff, ← Double.trunc_eq_iff, eq_comm]

theorem numberPriority?_eq_some_iff {k : Number} :
    numberPriority? k = some p ↔ Counts (.number k) p.toInt := by
  rw [numberPriority?, Option.orElse_eq_or, Option.or_eq_some_iff, truncated?_eq_some_iff]
  constructor
  · rintro (hinteger | ⟨hinteger, hx⟩)
    · cases k with
      | double x => cases hinteger
      | integer n bounds =>
        obtain rfl := int64?_eq_some_iff.1 hinteger
        exact .integer (inRange_toInt p)
    · refine .number ?_ hx (inRange_toInt p)
      rintro n bounds rfl
      exact int64?_eq_none_iff.1 hinteger
  · intro h
    cases h with
    | integer hn => exact .inl (int64?_eq_some_iff.2 rfl)
    | number hother hk _ =>
      apply Or.inr
      refine ⟨?_, hk⟩
      cases k with
      | double x => rfl
      | integer n bounds => exact int64?_eq_none_iff.2 (hother n bounds rfl)

theorem toDouble?_eq_some_iff {y : Floating} {x : Double} : y.toDouble? = some x ↔ y = .finite x := by
  cases y with
  | finite x' =>
    rw [Floating.toDouble?, Option.some_inj, Floating.finite.injEq]
  | infinite negative => exact ⟨nofun, nofun⟩
  | nan => exact ⟨nofun, nofun⟩

theorem read?_eq_some_iff {s : String} {x : Double} :
    Double.read? s = some x ↔ FloatingText (Text.trim s.toList) (.finite x) := by
  simp only [Double.read?, Option.bind_eq_some_iff, toDouble?_eq_some_iff, exists_eq_right,
    Floating.read?_eq_some_iff]

theorem textPriority?_eq_some_iff {s : String} :
    textPriority? s = some p ↔ Counts (.string s) p.toInt := by
  rw [textPriority?, Option.orElse_eq_or, Option.or_eq_some_iff]
  simp only [Option.bind_eq_some_iff, Option.bind_eq_none_iff, integer?_eq_some_iff,
    read?_eq_some_iff, truncated?_eq_some_iff, int64?_eq_some_iff, int64?_eq_none_iff]
  constructor
  · rintro (⟨n, hs, rfl⟩ | ⟨hother, x, hs, hx⟩)
    · exact .numeral hs (inRange_toInt p)
    · exact .text hother hs hx (inRange_toInt p)
  · intro h
    cases h with
    | numeral hs _ => exact .inl ⟨_, hs, rfl⟩
    | text hother hs hx _ => exact .inr ⟨hother, _, hs, hx⟩

/-! A member gives the integer that it counts for, or is refused. -/

theorem Counts.unique {t t' : Int} (h : Counts v t) (h' : Counts v t') : t = t' := by
  obtain ⟨p, rfl⟩ := exists_int64_of_inRange h.inRange
  obtain ⟨p', rfl⟩ := exists_int64_of_inRange h'.inRange
  cases v with
  | number k =>
    rw [← numberPriority?_eq_some_iff] at h h'
    rw [Option.some.inj (h.symm.trans h')]
  | string s =>
    rw [← textPriority?_eq_some_iff] at h h'
    rw [Option.some.inj (h.symm.trans h')]
  | _ => cases h

theorem priorityOf_of_not_counts (hnull : v ≠ .null) (h : ∀ t, ¬ Counts v t) :
    priorityOf (some v) = .error (.invalidField "priority" (.notInteger v.text)) := by
  cases v with
  | null => exact absurd rfl hnull
  | number k =>
    have hnone : numberPriority? k = none :=
      Option.eq_none_iff_forall_ne_some.2 fun p hp => h p.toInt (numberPriority?_eq_some_iff.1 hp)
    unfold priorityOf
    dsimp only
    rw [hnone]
  | string s =>
    have hnone : textPriority? s = none :=
      Option.eq_none_iff_forall_ne_some.2 fun p hp => h p.toInt (textPriority?_eq_some_iff.1 hp)
    unfold priorityOf
    dsimp only
    rw [hnone]
  | _ => rfl

theorem priorityOf_of_counts (h : Counts v p.toInt) : priorityOf (some v) = .ok (some p) := by
  cases v with
  | number k => exact priorityOf_number (numberPriority?_eq_some_iff.2 h)
  | string s =>
    unfold priorityOf
    dsimp only
    rw [textPriority?_eq_some_iff.2 h]
  | _ => cases h

theorem priorityOf_cases (hnull : v ≠ .null) :
    (∃ p : Int64, priorityOf (some v) = .ok (some p) ∧ ∀ t, Counts v t ↔ t = p.toInt) ∨
      priorityOf (some v) = .error (.invalidField "priority" (.notInteger v.text)) ∧
        ∀ t, ¬ Counts v t := by
  by_cases h : ∃ t, Counts v t
  · obtain ⟨t, ht⟩ := h
    obtain ⟨p, rfl⟩ := exists_int64_of_inRange ht.inRange
    refine .inl ⟨p, priorityOf_of_counts ht, fun t => ⟨fun ht' => ht'.unique ht, ?_⟩⟩
    rintro rfl
    exact ht
  · have hnone : ∀ t, ¬ Counts v t := fun t ht => h ⟨t, ht⟩
    exact .inr ⟨priorityOf_of_not_counts hnull hnone, hnone⟩

/-! What counts for nothing. -/

/-- An integer that is too large is too large as a double as well. -/
theorem not_counts_of_le {bounds : -0x8000000000000000 ≤ n ∧ n < 0x10000000000000000}
    (hn : 0x8000000000000000 ≤ n) (t : Int) : ¬ Counts (.number (.integer n bounds)) t := by
  intro h
  have hrange := inRange_iff.1 h.inRange
  cases h with
  | integer _ => omega
  | number _ hk _ =>
    have htrunc := Double.le_trunc_ofInt (by omega) hn
    obtain rfl := Double.trunc_eq_iff.2 hk
    exact absurd (Int.lt_of_le_of_lt htrunc hrange.2) (Int.lt_irrefl _)

/-- The doubles strictly between `-2 ^ 63 - 1` and `2 ^ 63` count, and no others. -/
theorem exists_counts_double_iff {x : Double} : (∃ t, Counts (.number (.double x)) t) ↔
    -0x8000000000000001 * twoPow 1074 < x.value ∧ x.value < 0x8000000000000000 * twoPow 1074 := by
  have hunit : (0 : Int) < twoPow 1074 := Int.natCast_pos.2 (twoPow_pos 1074)
  have hmono {a b : Int} (h : a ≤ b) : a * twoPow 1074 ≤ b * twoPow 1074 :=
    Int.mul_le_mul_of_nonneg_right h (Int.le_of_lt hunit)
  have hcancel {a b : Int} (h : a * twoPow 1074 < b * twoPow 1074) : a < b :=
    Int.lt_of_mul_lt_mul_right h (Int.le_of_lt hunit)
  constructor
  · rintro ⟨t, h⟩
    obtain ⟨hlow, hhigh⟩ := inRange_iff.1 h.inRange
    cases h with
    | number _ hk _ =>
      have hk : x.Truncates t := hk
      by_cases hx : 0 ≤ x.value
      · have hbelow := (hk.of_nonneg hx).2
        have hlimit := hmono (show t + 1 ≤ 0x8000000000000000 by omega)
        constructor <;> omega
      · have habove := (hk.of_neg (by omega)).1
        have hlimit := hmono (show -0x8000000000000001 ≤ t - 1 by omega)
        constructor <;> omega
  · rintro ⟨hlow, hhigh⟩
    have htrunc : x.Truncates x.trunc := Double.trunc_eq_iff.1 rfl
    have hrange (h : -0x8000000000000000 ≤ x.trunc ∧ x.trunc < 0x8000000000000000) :
        ∃ t, Counts (.number (.double x)) t :=
      ⟨x.trunc, .number (fun _ _ h => nomatch h) htrunc (inRange_iff.2 h)⟩
    apply hrange
    by_cases hx : 0 ≤ x.value
    · obtain ⟨hle, hlt⟩ := htrunc.of_nonneg hx
      have hbelow := hcancel (Int.lt_of_le_of_lt hle hhigh)
      have habove : (0 : Int) < x.trunc + 1 := hcancel (by omega)
      omega
    · obtain ⟨hlt, hle⟩ := htrunc.of_neg (by omega)
      have habove := hcancel (Int.lt_of_lt_of_le hlow hle)
      have hbelow : x.trunc - 1 < 0 := hcancel (by omega)
      omega

/-- Text that counts names a number, so neither an infinity nor no number. -/
theorem Counts.exists_floatingText {s : String} {t : Int} (h : Counts (.string s) t) :
    ∃ x, ∀ y, FloatingText (Text.trim s.toList) y ↔ y = .finite x := by
  have hfinite : ∃ x, FloatingText (Text.trim s.toList) (.finite x) := by
    cases h with
    | numeral hs hn =>
      have hrange := inRange_iff.1 hn
      exact hs.exists_floatingText (by omega)
    | text _ hs _ _ => exact ⟨_, hs⟩
  obtain ⟨x, hx⟩ := hfinite
  refine ⟨x, fun y => ⟨fun hy => Floating.eq_of_floatingText hy hx, ?_⟩⟩
  rintro rfl
  exact hx

/-! The priorities of what was read. -/

mutual

/-- The headings of all the connectives in a condition. -/
def headings : Condition → List Heading
  | group _ h cs => h :: headingsAll cs
  | not h c => h :: headings c
  | reference _ => []
  | leaf _ => []

def headingsAll : List Condition → List Heading
  | [] => []
  | c :: cs => headings c ++ headingsAll cs

end

theorem priority_ne_zero_of_headingOf {t : Table Json} {key : String} {h : Heading}
    (hread : headingOf t key = .ok h) : h.priority ≠ 0 := by
  obtain ⟨⟨p, -, hp⟩, -⟩ := headingOf_eq_ok_iff.1 hread
  rw [← hp]
  exact getD_filter_ne_zero p

mutual

theorem priority_ne_zero_of_ofJson : ∀ (c : Condition) {v : Json}, ofJson v = .ok c →
    ∀ h ∈ c.headings, h.priority ≠ 0
  | .group q heading cs, v, hv, h, hmem => by
    obtain ⟨t, rfl, hdefines⟩ := ofJson_eq_ok_iff.1 hv
    cases hdefines with
    | group _ hheading _ hitems =>
      rcases List.mem_cons.1 hmem with rfl | hmem
      · exact priority_ne_zero_of_headingOf hheading
      · exact priority_ne_zero_of_ofItems cs hitems h hmem
  | .not heading c, v, hv, h, hmem => by
    obtain ⟨t, rfl, hdefines⟩ := ofJson_eq_ok_iff.1 hv
    cases hdefines with
    | not _ hheading _ hinner =>
      rcases List.mem_cons.1 hmem with rfl | hmem
      · exact priority_ne_zero_of_headingOf hheading
      · exact priority_ne_zero_of_ofJson c hinner h hmem
  | .reference _, _, _, _, hmem => nomatch hmem
  | .leaf _, _, _, _, hmem => nomatch hmem

theorem priority_ne_zero_of_ofItems : ∀ (cs : List Condition) {items : List Json},
    ofItems items = .ok cs → ∀ h ∈ headingsAll cs, h.priority ≠ 0
  | [], _, _, _, hmem => nomatch hmem
  | c :: cs, items, hitems, h, hmem => by
    cases items with
    | nil => cases hitems
    | cons v rest =>
      obtain ⟨c', hc, htail⟩ := bind_eq_ok_iff.1 hitems
      obtain ⟨cs', hcs, heq⟩ := bind_eq_ok_iff.1 htail
      cases heq
      rcases List.mem_append.1 hmem with hmem | hmem
      · exact priority_ne_zero_of_ofJson c hc h hmem
      · exact priority_ne_zero_of_ofItems cs hcs h hmem

end

/-- A member other than null gives the one integer that it counts for, or is refused. Integers that
64 bits cannot hold, doubles beyond the bounds, infinities and texts that name no number count for
none. What is read this way is never zero in a connective, and is read again as it is written. -/
theorem priorities_exact :
    (∀ v : Json, v ≠ .null →
      (∃ p : Int64, priorityOf (some v) = .ok (some p) ∧ ∀ t, Counts v t ↔ t = p.toInt) ∨
        priorityOf (some v) = .error (.invalidField "priority" (.notInteger v.text)) ∧
          ∀ t, ¬ Counts v t) ∧
      (∀ n bounds, 0x8000000000000000 ≤ n → ∀ t, ¬ Counts (.number (.integer n bounds)) t) ∧
      (∀ x, (∃ t, Counts (.number (.double x)) t) ↔
        -0x8000000000000001 * twoPow 1074 < x.value ∧
          x.value < 0x8000000000000000 * twoPow 1074) ∧
      (∀ s t, Counts (.string s) t →
        ∃ x, ∀ y, FloatingText (Text.trim s.toList) y ↔ y = .finite x) ∧
      (∀ v c, ofJson v = .ok c →
        (∀ h ∈ c.headings, h.priority ≠ 0 ∧ inRange h.priority.toInt) ∧
          ofJson c.toJson = .ok c) ∧
      ∀ p : Int64, priorityOf (some (.ofInt64 p)) = .ok (some p) := by
  refine ⟨fun v => priorityOf_cases, fun n bounds => not_counts_of_le,
    fun x => exists_counts_double_iff, fun s t h => h.exists_floatingText, fun v c h => ?_,
    priorityOf_ofInt64⟩
  have hpriority := priority_ne_zero_of_ofJson c h
  exact ⟨fun heading hmem => ⟨hpriority heading hmem, inRange_toInt _⟩, (normalizes_toJson c h).1⟩

/-- The bound itself is refused, and what stands just below it is not rounded up to it. -/
theorem priorities_exact_bounds :
    let largest : Json := .string " +9223372036854775807 "
    let beyond : Json := .number (.integer 0x8000000000000000 (by decide))
    priorityOf (some largest) = .ok (some 0x7fffffffffffffff) ∧
      (∀ t, Counts largest t ↔ t = 0x7fffffffffffffff) ∧
      priorityOf (some beyond) = .error (.invalidField "priority" (.notInteger beyond.text)) := by
  intro largest beyond
  obtain ⟨hcases, hbeyond, -⟩ := priorities_exact
  have hlargest : priorityOf (some largest) = .ok (some 0x7fffffffffffffff) := rfl
  refine ⟨hlargest, ?_, ?_⟩
  · rcases hcases largest nofun with ⟨p, hp, hcounts⟩ | ⟨herror, -⟩
    · cases hlargest.symm.trans hp
      exact hcounts
    · cases hlargest.symm.trans herror
  · rcases hcases beyond nofun with ⟨p, -, hcounts⟩ | ⟨herror, -⟩
    · exact absurd ((hcounts p.toInt).2 rfl) (hbeyond _ _ (by decide) _)
    · exact herror

end Condition
end Verdict
