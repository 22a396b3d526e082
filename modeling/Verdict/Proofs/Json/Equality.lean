import Verdict.Operator.Defaults

/-!
# Equality of values

The equality of values and that of tests are equivalences. Neither asks which of two values comes
first.
-/
namespace Verdict

theorem Double.beq_comm (x y : Double) : (x == y) = (y == x) :=
  BEq.comm (a := x.value) (b := y.value)

theorem Double.beq_iff {x y : Double} : (x == y) = true ↔ x.value = y.value :=
  beq_iff_eq (a := x.value) (b := y.value)

theorem Number.beq_comm : ∀ m n : Number, (m == n) = (n == m)
  | .integer m _, .integer n _ => BEq.comm (a := m) (b := n)
  | .integer _ _, .double _ => rfl
  | .double _, .integer _ _ => rfl
  | .double x, .double y => Double.beq_comm x y

theorem Number.beq_refl : ∀ m : Number, (m == m) = true
  | .integer m _ => beq_self_eq_true m
  | .double _ => Double.beq_iff.2 rfl

theorem Number.beq_trans {m n k : Number} (h : (m == n) = true) (h' : (n == k) = true) :
    (m == k) = true := by
  cases n with
  | integer n =>
    cases m with
    | double => cases h
    | integer m =>
      cases k with
      | double => cases h'
      | integer k =>
        obtain rfl := eq_of_beq (a := m) h
        exact h'
  | double y =>
    cases m with
    | integer => cases h
    | double x =>
      cases k with
      | integer => cases h'
      | double z => exact Double.beq_iff.2 ((Double.beq_iff.1 h).trans (Double.beq_iff.1 h'))

namespace Json

mutual

theorem equal_comm : ∀ v w : Json, equal v w = equal w v
  | .null, w => by cases w <;> rfl
  | .bool a, w => by
    cases w with
    | bool b => exact BEq.comm
    | _ => rfl
  | .number m, w => by
    cases w with
    | number n => exact Number.beq_comm m n
    | _ => rfl
  | .string s, w => by
    cases w with
    | string t => exact BEq.comm
    | _ => rfl
  | .array l, w => by
    cases w with
    | array l' => rw [equal, equal, equalItems_comm l l']
    | _ => rfl
  | .object ⟨l⟩, w => by
    cases w with
    | object t => rw [equal, equal, equalMembers_comm l t.entries]
    | _ => rfl

theorem equalItems_comm : ∀ l l' : List Json, equalItems l l' = equalItems l' l
  | [], [] => rfl
  | [], _ :: _ => rfl
  | _ :: _, [] => rfl
  | v :: l, v' :: l' => by
    rw [equalItems, equalItems, equal_comm v v', equalItems_comm l l']

theorem equalMembers_comm : ∀ l l' : List (String × Json), equalMembers l l' = equalMembers l' l
  | [], [] => rfl
  | [], _ :: _ => rfl
  | _ :: _, [] => rfl
  | (k, v) :: l, (k', v') :: l' => by
    rw [equalMembers, equalMembers, equal_comm v v', equalMembers_comm l l',
      BEq.comm (a := k) (b := k')]

end

mutual

theorem equal_refl : ∀ v : Json, equal v v = true
  | .null => rfl
  | .bool b => by cases b <;> rfl
  | .number m => Number.beq_refl m
  | .string s => beq_self_eq_true s
  | .array l => equalItems_refl l
  | .object ⟨l⟩ => equalMembers_refl l

theorem equalItems_refl : ∀ l : List Json, equalItems l l = true
  | [] => rfl
  | v :: l => by rw [equalItems, equal_refl v, equalItems_refl l]; rfl

theorem equalMembers_refl : ∀ l : List (String × Json), equalMembers l l = true
  | [] => rfl
  | (k, v) :: l => by
    rw [equalMembers, equal_refl v, equalMembers_refl l, beq_self_eq_true]; rfl

end

mutual

theorem equal_trans : ∀ {u v w : Json}, equal u v = true → equal v w = true → equal u w = true
  | .null, v, w, h, h' => by
    cases v with
    | null => exact h'
    | _ => cases h
  | .bool a, v, w, h, h' => by
    cases v with
    | bool b => exact eq_of_beq (a := a) h ▸ h'
    | _ => cases h
  | .number m, v, w, h, h' => by
    cases v with
    | number n =>
      cases w with
      | number k => exact Number.beq_trans h h'
      | _ => cases h'
    | _ => cases h
  | .string s, v, w, h, h' => by
    cases v with
    | string t => exact eq_of_beq (a := s) h ▸ h'
    | _ => cases h
  | .array l, v, w, h, h' => by
    cases v with
    | array l' =>
      cases w with
      | array l'' => exact equalItems_trans h h'
      | _ => cases h'
    | _ => cases h
  | .object ⟨l⟩, v, w, h, h' => by
    cases v with
    | object t =>
      cases w with
      | object t' => exact equalMembers_trans h h'
      | _ => cases h'
    | _ => cases h

theorem equalItems_trans : ∀ {l l' l'' : List Json}, equalItems l l' = true →
    equalItems l' l'' = true → equalItems l l'' = true
  | [], [], _, _, h => h
  | _ :: _, _ :: _, _ :: _, h, h' => by
    rw [equalItems, Bool.and_eq_true] at h h' ⊢
    exact ⟨equal_trans h.1 h'.1, equalItems_trans h.2 h'.2⟩

theorem equalMembers_trans : ∀ {l l' l'' : List (String × Json)}, equalMembers l l' = true →
    equalMembers l' l'' = true → equalMembers l l'' = true
  | [], [], _, _, h => h
  | (_, _) :: _, (_, _) :: _, (_, _) :: _, h, h' => by
    simp only [equalMembers, Bool.and_eq_true, beq_iff_eq] at h h' ⊢
    exact ⟨⟨h.1.1.trans h'.1.1, equal_trans h.1.2 h'.1.2⟩, equalMembers_trans h.2 h'.2⟩

end

theorem strictEqual_comm (v w : Json) : strictEqual v w = strictEqual w v := by
  cases v with
  | number m =>
    cases w with
    | number n => exact Double.beq_comm m.toDouble n.toDouble
    | _ => rfl
  | _ => cases w <;> exact equal_comm _ _

theorem strictEqual_refl (v : Json) : strictEqual v v = true := by
  cases v with
  | number m => exact Double.beq_iff.2 rfl
  | _ => exact equal_refl _

theorem exists_eq_number {v : Json} (h : v.kind = .number) : ∃ n, v = .number n := by
  cases v with
  | number n => exact ⟨n, rfl⟩
  | _ => cases h

theorem strictEqual_eq_equal {v : Json} (h : v.kind ≠ .number) (w : Json) :
    strictEqual v w = equal v w := by
  cases v with
  | number m => exact absurd rfl h
  | _ => cases w <;> rfl

theorem kind_eq_of_strictEqual {v w : Json} (h : strictEqual v w = true) : v.kind = w.kind := by
  cases v <;> cases w <;> first | rfl | cases h

theorem strictEqual_trans {u v w : Json} (h : strictEqual u v = true)
    (h' : strictEqual v w = true) : strictEqual u w = true := by
  by_cases hu : u.kind = .number
  · have hv : v.kind = .number := kind_eq_of_strictEqual h ▸ hu
    have hw : w.kind = .number := kind_eq_of_strictEqual h' ▸ hv
    obtain ⟨m, rfl⟩ := exists_eq_number hu
    obtain ⟨n, rfl⟩ := exists_eq_number hv
    obtain ⟨k, rfl⟩ := exists_eq_number hw
    exact Double.beq_iff.2 ((Double.beq_iff.1 h).trans (Double.beq_iff.1 h'))
  · have hv : v.kind ≠ .number := kind_eq_of_strictEqual h ▸ hu
    rw [strictEqual_eq_equal hu] at h ⊢
    rw [strictEqual_eq_equal hv] at h'
    exact equal_trans h h'

end Json
end Verdict
