import Verdict.Proofs.Operator.Algebra

/-!
# Consistency of the operators at hand

Tests that deny each other do so of all values, as far as they apply. Where two values have numbers,
just one of the orders holds between them, and two numbers are equal if neither is the smaller one.
-/
namespace Verdict

namespace Json

/-- Is the value one that others are looked for in? -/
def isWhole (v : Json) : Bool := v.kind = .array ∨ v.kind = .string

theorem excludes_of_isWhole {whole : Json} (h : whole.isWhole = true) (part : Json) :
    excludes whole part = !includes whole part := by
  cases whole with
  | array items => rfl
  | string s => rfl
  | _ => cases h

theorem includes_of_not_isWhole {whole : Json} (h : whole.isWhole = false) (part : Json) :
    includes whole part = false := by
  cases whole with
  | array items => cases h
  | string s => cases h
  | _ => rfl

theorem excludes_of_not_isWhole {whole : Json} (h : whole.isWhole = false) (part : Json) :
    excludes whole part = false := by
  cases whole with
  | array items => cases h
  | string s => cases h
  | _ => rfl

theorem isWhole_of_isArray {v : Json} (h : v.isArray = true) : v.isWhole = true := by
  cases v with
  | array items => rfl
  | _ => cases h

variable {test : Double → Double → Bool} {v w : Json} {x y : Double}

theorem compareBy_of_eq_some (hv : v.toDouble? = some x) (hw : w.toDouble? = some y) :
    compareBy test v w = test x y := by
  rw [compareBy, hv, hw]

theorem compareBy_of_not_isNumeric (h : v.isNumeric = false ∨ w.isNumeric = false) :
    compareBy test v w = false := by
  simp only [isNumeric, Option.isSome_eq_false_iff, Option.isNone_iff_eq_none] at h
  unfold compareBy
  rcases h with h | h
  · rw [h]
  · rw [h]
    cases v.toDouble? <;> rfl

theorem isNumeric_and_compareBy (test : Double → Double → Bool) (v w : Json) :
    (v.isNumeric && compareBy test v w) = compareBy test v w := by
  cases h : v.isNumeric with
  | true => rfl
  | false => exact (compareBy_of_not_isNumeric (.inl h)).symm

end Json

open Json

namespace Registry
variable {r : Registry} {o : Operator} {fact value : Json}

theorem Supplemented.verdict_default (h : Supplemented r) (ho : o ∈ Operator.defaults)
    (fact value : Json) : r.verdict o.name fact value = some (o.evaluate fact value) :=
  (h.test_default ho).verdict_eq fact value

theorem Supplemented.verdict_unguarded (h : Supplemented r) {name : String}
    {t : Json → Json → Bool} (ho : ⟨name, none, t⟩ ∈ Operator.defaults)
    (fact value : Json) : r.verdict name fact value = some (t fact value) :=
  h.verdict_default ho fact value

theorem Supplemented.verdict_compare (h : Supplemented r) {name : String}
    {t : Double → Double → Bool}
    (ho : ⟨name, some isNumeric, compareBy t⟩ ∈ Operator.defaults) (fact value : Json) :
    r.verdict name fact value = some (compareBy t fact value) := by
  rw [← isNumeric_and_compareBy t fact value]
  exact h.verdict_default ho fact value

/-- Just one of the two holds. -/
def Opposite (r : Registry) (left right : String) (fact value : Json) : Prop :=
  ∃ b, r.verdict left fact value = some b ∧ r.verdict right fact value = some !b

/-- Neither of the two holds. -/
def Neither (r : Registry) (left right : String) (fact value : Json) : Prop :=
  r.verdict left fact value = some false ∧ r.verdict right fact value = some false

/-- Just one holds of less, greater, and less or equal together with greater or equal. -/
def Trichotomy (r : Registry) (fact value : Json) : Prop :=
  ∃ less greater lessInclusive greaterInclusive : Bool,
    r.verdict "lessThan" fact value = some less ∧
    r.verdict "greaterThan" fact value = some greater ∧
    r.verdict "lessThanInclusive" fact value = some lessInclusive ∧
    r.verdict "greaterThanInclusive" fact value = some greaterInclusive ∧
    [less, greater, lessInclusive && greaterInclusive].count true = 1

/-- How the operators at hand go together on a fact and a value. -/
structure Consistent (r : Registry) (fact value : Json) : Prop where
  equal : r.Opposite "equal" "notEqual" fact value
  in_whole : value.isWhole = true → r.Opposite "in" "notIn" fact value
  in_other : value.isWhole = false → r.Neither "in" "notIn" fact value
  contains_array : fact.isArray = true → r.Opposite "contains" "doesNotContain" fact value
  contains_other : fact.isArray = false → r.Neither "contains" "doesNotContain" fact value
  trichotomy : fact.isNumeric = true → value.isNumeric = true → r.Trichotomy fact value
  less : fact.isNumeric = true → value.isNumeric = true →
    r.Opposite "lessThan" "greaterThanInclusive" fact value
  greater : fact.isNumeric = true → value.isNumeric = true →
    r.Opposite "greaterThan" "lessThanInclusive" fact value
  not_numeric : fact.isNumeric = false ∨ value.isNumeric = false →
    r.Neither "lessThan" "greaterThanInclusive" fact value ∧
      r.Neither "greaterThan" "lessThanInclusive" fact value
  equal_numbers : fact.kind = .number → value.kind = .number →
    (r.verdict "equal" fact value = some true ↔
      r.verdict "lessThanInclusive" fact value = some true ∧
        r.verdict "greaterThanInclusive" fact value = some true)

variable {left right : String}

/-! Equality and membership. -/

section
variable {s t : Json → Json → Bool}

theorem Supplemented.equivalence_equal (h : Supplemented r) :
    Equivalence fun v w => r.verdict "equal" v w = some true := by
  have hverdict (v w : Json) : r.verdict "equal" v w = some (strictEqual v w) :=
    h.verdict_unguarded (by simp [Operator.defaults]) v w
  simp only [hverdict, Option.some_inj]
  exact ⟨strictEqual_refl, fun {v w} hvw => strictEqual_comm v w ▸ hvw, strictEqual_trans⟩

/-- A test and its denial, both without a guard. -/
theorem Supplemented.opposite_unguarded (h : Supplemented r)
    (hleft : ⟨left, none, s⟩ ∈ Operator.defaults) (hright : ⟨right, none, t⟩ ∈ Operator.defaults)
    (hnot : t fact value = !s fact value) : r.Opposite left right fact value :=
  ⟨s fact value, h.verdict_unguarded hleft fact value,
    hnot ▸ h.verdict_unguarded hright fact value⟩

theorem Supplemented.opposite_equal (h : Supplemented r) (fact value : Json) :
    r.Opposite "equal" "notEqual" fact value :=
  h.opposite_unguarded (t := fun v w => !strictEqual v w) (by simp [Operator.defaults])
    (by simp [Operator.defaults]) rfl

theorem Supplemented.opposite_in (h : Supplemented r) (hvalue : value.isWhole = true)
    (fact : Json) : r.Opposite "in" "notIn" fact value :=
  h.opposite_unguarded (s := fun v w => includes w v) (t := fun v w => excludes w v)
    (by simp [Operator.defaults]) (by simp [Operator.defaults]) (excludes_of_isWhole hvalue fact)

theorem Supplemented.neither_in (h : Supplemented r) (hvalue : value.isWhole = false)
    (fact : Json) : r.Neither "in" "notIn" fact value := by
  constructor
  · rw [h.verdict_unguarded (t := fun v w => includes w v) (by simp [Operator.defaults]),
      includes_of_not_isWhole hvalue]
  · rw [h.verdict_unguarded (t := fun v w => excludes w v) (by simp [Operator.defaults]),
      excludes_of_not_isWhole hvalue]

theorem Supplemented.verdict_contains (h : Supplemented r) (fact value : Json) :
    r.verdict "contains" fact value = some (fact.isArray && includes fact value) :=
  h.verdict_default (o := ⟨"contains", some isArray, includes⟩) (by simp [Operator.defaults]) _ _

theorem Supplemented.verdict_doesNotContain (h : Supplemented r) (fact value : Json) :
    r.verdict "doesNotContain" fact value = some (fact.isArray && excludes fact value) :=
  h.verdict_default (o := ⟨"doesNotContain", some isArray, excludes⟩)
    (by simp [Operator.defaults]) _ _

theorem Supplemented.opposite_contains (h : Supplemented r) (hfact : fact.isArray = true)
    (value : Json) : r.Opposite "contains" "doesNotContain" fact value := by
  refine ⟨includes fact value, ?_, ?_⟩
  · rw [h.verdict_contains, hfact, Bool.true_and]
  · rw [h.verdict_doesNotContain, hfact, Bool.true_and,
      excludes_of_isWhole (isWhole_of_isArray hfact)]

theorem Supplemented.neither_contains (h : Supplemented r) (hfact : fact.isArray = false)
    (value : Json) : r.Neither "contains" "doesNotContain" fact value := by
  rw [Neither, h.verdict_contains, h.verdict_doesNotContain, hfact]
  exact ⟨rfl, rfl⟩

end

/-! Orders. -/

section
variable {s t : Double → Double → Bool}

theorem Supplemented.verdict_numbers (h : Supplemented r) {name : String} {x y : Double}
    (ho : ⟨name, some isNumeric, compareBy t⟩ ∈ Operator.defaults)
    (hx : fact.toDouble? = some x) (hy : value.toDouble? = some y) :
    r.verdict name fact value = some (t x y) := by
  rw [h.verdict_compare ho, compareBy_of_eq_some hx hy]

theorem Supplemented.neither_compare (h : Supplemented r)
    (hleft : ⟨left, some isNumeric, compareBy s⟩ ∈ Operator.defaults)
    (hright : ⟨right, some isNumeric, compareBy t⟩ ∈ Operator.defaults)
    (hnumeric : fact.isNumeric = false ∨ value.isNumeric = false) :
    r.Neither left right fact value := by
  rw [Neither, h.verdict_compare hleft, h.verdict_compare hright,
    compareBy_of_not_isNumeric hnumeric, compareBy_of_not_isNumeric hnumeric]
  exact ⟨rfl, rfl⟩

theorem decide_le_eq_not (x y : Double) : decide (y ≤ x) = !decide (x < y) := by
  have hle : y ≤ x ↔ ¬ x < y := Int.not_lt.symm
  rw [decide_eq_decide.2 hle, decide_not]

section
variable {x y : Double} (hx : fact.toDouble? = some x) (hy : value.toDouble? = some y)
include hx hy

theorem Supplemented.verdict_lessThan (h : Supplemented r) :
    r.verdict "lessThan" fact value = some (decide (x < y)) :=
  h.verdict_numbers (t := fun x y => x < y) (by simp [Operator.defaults]) hx hy

theorem Supplemented.verdict_lessThanInclusive (h : Supplemented r) :
    r.verdict "lessThanInclusive" fact value = some (decide (x ≤ y)) :=
  h.verdict_numbers (t := fun x y => x ≤ y) (by simp [Operator.defaults]) hx hy

theorem Supplemented.verdict_greaterThan (h : Supplemented r) :
    r.verdict "greaterThan" fact value = some (decide (y < x)) :=
  h.verdict_numbers (t := fun x y => y < x) (by simp [Operator.defaults]) hx hy

theorem Supplemented.verdict_greaterThanInclusive (h : Supplemented r) :
    r.verdict "greaterThanInclusive" fact value = some (decide (y ≤ x)) :=
  h.verdict_numbers (t := fun x y => y ≤ x) (by simp [Operator.defaults]) hx hy

end

theorem Supplemented.opposite_less (h : Supplemented r) (hfact : fact.isNumeric = true)
    (hvalue : value.isNumeric = true) :
    r.Opposite "lessThan" "greaterThanInclusive" fact value := by
  obtain ⟨x, hx⟩ := Option.isSome_iff_exists.1 hfact
  obtain ⟨y, hy⟩ := Option.isSome_iff_exists.1 hvalue
  exact ⟨_, h.verdict_lessThan hx hy,
    decide_le_eq_not x y ▸ h.verdict_greaterThanInclusive hx hy⟩

theorem Supplemented.opposite_greater (h : Supplemented r) (hfact : fact.isNumeric = true)
    (hvalue : value.isNumeric = true) :
    r.Opposite "greaterThan" "lessThanInclusive" fact value := by
  obtain ⟨x, hx⟩ := Option.isSome_iff_exists.1 hfact
  obtain ⟨y, hy⟩ := Option.isSome_iff_exists.1 hvalue
  exact ⟨_, h.verdict_greaterThan hx hy, decide_le_eq_not y x ▸ h.verdict_lessThanInclusive hx hy⟩

theorem Supplemented.neither_order (h : Supplemented r)
    (hnumeric : fact.isNumeric = false ∨ value.isNumeric = false) :
    r.Neither "lessThan" "greaterThanInclusive" fact value ∧
      r.Neither "greaterThan" "lessThanInclusive" fact value := by
  constructor
  · exact h.neither_compare (s := fun x y => x < y) (t := fun x y => y ≤ x)
      (by simp [Operator.defaults]) (by simp [Operator.defaults]) hnumeric
  · exact h.neither_compare (s := fun x y => y < x) (t := fun x y => x ≤ y)
      (by simp [Operator.defaults]) (by simp [Operator.defaults]) hnumeric

/-- Two values that have numbers are less, greater, or both inclusively. -/
theorem Supplemented.trichotomy (h : Supplemented r) (hfact : fact.isNumeric = true)
    (hvalue : value.isNumeric = true) : r.Trichotomy fact value := by
  obtain ⟨x, hx⟩ := Option.isSome_iff_exists.1 hfact
  obtain ⟨y, hy⟩ := Option.isSome_iff_exists.1 hvalue
  refine ⟨_, _, _, _, h.verdict_lessThan hx hy, h.verdict_greaterThan hx hy,
    h.verdict_lessThanInclusive hx hy, h.verdict_greaterThanInclusive hx hy, ?_⟩
  have hasymm : x < y → ¬ y < x := Int.lt_asymm
  rw [decide_le_eq_not y x, decide_le_eq_not x y]
  by_cases hless : x < y
  · simp [hless, hasymm hless]
  · by_cases hgreater : y < x <;> simp [hless, hgreater]

theorem Supplemented.equal_iff (h : Supplemented r) (m n : Number) :
    r.verdict "equal" (.number m) (.number n) = some true ↔
      r.verdict "lessThanInclusive" (.number m) (.number n) = some true ∧
        r.verdict "greaterThanInclusive" (.number m) (.number n) = some true := by
  have hequal : r.verdict "equal" (.number m) (.number n) = some (m.toDouble == n.toDouble) :=
    h.verdict_unguarded (t := strictEqual) (by simp [Operator.defaults]) _ _
  rw [hequal, h.verdict_lessThanInclusive rfl rfl, h.verdict_greaterThanInclusive rfl rfl]
  simp only [Option.some_inj, decide_eq_true_eq, Double.beq_iff]
  exact Int.le_antisymm_iff

end

/-- Whatever operators were added, equality is an equivalence, and the operators at hand go together
on every fact and every value. -/
theorem Supplemented.operators_consistent (h : Supplemented r) :
    (Equivalence fun v w => r.verdict "equal" v w = some true) ∧
      ∀ fact value, r.Consistent fact value := by
  refine ⟨h.equivalence_equal, fun fact value => ?_⟩
  exact {
    equal := h.opposite_equal fact value
    in_whole := fun hvalue => h.opposite_in hvalue fact
    in_other := fun hvalue => h.neither_in hvalue fact
    contains_array := fun hfact => h.opposite_contains hfact value
    contains_other := fun hfact => h.neither_contains hfact value
    trichotomy := h.trichotomy
    less := h.opposite_less
    greater := h.opposite_greater
    not_numeric := h.neither_order
    equal_numbers := fun hfact hvalue => by
      obtain ⟨m, rfl⟩ := exists_eq_number hfact
      obtain ⟨n, rfl⟩ := exists_eq_number hvalue
      exact h.equal_iff m n }

/-- With an operator for adults added, a text that names a number compares with a number, and one
that does not compares with none. -/
theorem operators_consistent_adult :
    let adult : Operator := ⟨"adult", some isNumeric, fun fact _ => fact == .ofNat 18⟩
    let r := withDefaults.addOperator adult
    r.Supplemented ∧ r.Trichotomy (.string " 1e3 ") (.ofNat 2) ∧
      r.Neither "lessThan" "greaterThanInclusive" (.string "3px") (.ofNat 2) ∧
      r.Opposite "in" "notIn" (.ofNat 2) (.string "12") := by
  intro adult r
  have h : r.Supplemented := .addOperator .start (by decide) rfl
  obtain ⟨-, hconsistent⟩ := h.operators_consistent
  exact ⟨h, (hconsistent _ _).trichotomy (by decide +kernel) (by decide +kernel),
    ((hconsistent _ _).not_numeric (.inl (by decide +kernel))).1, (hconsistent _ _).in_whole rfl⟩

end Registry
end Verdict
