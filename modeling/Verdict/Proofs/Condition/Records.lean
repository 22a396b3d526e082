import Verdict.Proofs.Condition.Reading

/-!
# Records in a tree

A comparison that was made has a record of what it saw. Records can be cleared, collected in the
order of the tree, and carried over to another tree, to comparisons without a record of their own.
-/
namespace Verdict.Condition

mutual

/-- The tree `after` an evaluation, where comparisons without a record have that of the tree
`before` in their place. -/
def carry : Condition → Condition → Condition
  | group _ _ befores, group q h afters => group q h (carryAll befores afters)
  | not _ before, not h after => not h (carry before after)
  | leaf before, leaf after =>
    leaf { after with observation := after.observation.or before.observation }
  | _, after => after

def carryAll : List Condition → List Condition → List Condition
  | [], afters => afters
  | _ :: _, [] => []
  | before :: befores, after :: afters => carry before after :: carryAll befores afters

end

/-- What the member of that number carries. -/
def carryAt (befores : List Condition) (i : Nat) : Condition → Condition :=
  (befores[i]?.map carry).getD id

theorem carryAll_eq_mapIdx (befores afters : List Condition) :
    carryAll befores afters = afters.mapIdx (carryAt befores) := by
  induction befores generalizing afters with
  | nil =>
    have hid : afters.mapIdx (carryAt []) = afters :=
      List.ext_getElem (by simp) fun i _ _ => by simp [carryAt]
    rw [carryAll, hid]
  | cons before befores ih =>
    cases afters with
    | nil => rfl
    | cons after afters =>
      rw [carryAll, List.mapIdx_cons, ih]
      rfl

mutual

/-- What was cleared has nothing to carry. -/
theorem carry_clear : ∀ before after : Condition, carry before.clear after = after
  | group _ _ befores, after => by
    cases after with
    | group q h afters => rw [clear, carry, carryAll_clearAll befores afters]
    | _ => rfl
  | not _ before, after => by
    cases after with
    | not h after => rw [clear, carry, carry_clear before after]
    | _ => rfl
  | reference _, after => by cases after <;> rfl
  | leaf _, after => by
    cases after with
    | leaf l => rw [clear, carry, Leaf.clear, Option.or_none]
    | _ => rfl

theorem carryAll_clearAll : ∀ befores afters : List Condition,
    carryAll (clearAll befores) afters = afters
  | [], _ => by rw [clearAll, carryAll]
  | _ :: _, [] => rfl
  | before :: befores, after :: afters => by
    rw [clearAll, carryAll, carry_clear before after, carryAll_clearAll befores afters]

end

mutual

/-- A condition that was cleared is restored by what it carried. -/
theorem carry_clear_self : ∀ c : Condition, carry c c.clear = c
  | group _ _ cs => by rw [clear, carry, carryAll_clearAll_self cs]
  | not _ c => by rw [clear, carry, carry_clear_self c]
  | reference _ => rfl
  | leaf _ => rfl

theorem carryAll_clearAll_self : ∀ cs : List Condition, carryAll cs (clearAll cs) = cs
  | [] => rfl
  | c :: cs => by rw [clearAll, carryAll, carry_clear_self c, carryAll_clearAll_self cs]

end

theorem clear_clear (c : Condition) : c.clear.clear = c.clear := by
  rw [← carry_clear c c.clear.clear, carry_clear_self]

theorem carry_of_clear_eq {c : Condition} (h : c.clear = c) : carry c = id := by
  funext after
  rw [← h]
  exact carry_clear c after

theorem carry_reference (r : Reference) : carry (reference r) = id :=
  carry_of_clear_eq rfl

mutual

/-- What is read carries nothing of earlier runs. -/
theorem clear_of_ofJson : ∀ {v : Json} (c : Condition), ofJson v = .ok c → c.clear = c
  | _, group _ _ cs, h => by
    obtain ⟨_, rfl, hdefines⟩ := ofJson_eq_ok_iff.1 h
    cases hdefines with
    | group _ _ _ hitems => rw [clear, clearAll_of_ofItems cs hitems]
  | _, not _ c, h => by
    obtain ⟨_, rfl, hdefines⟩ := ofJson_eq_ok_iff.1 h
    cases hdefines with
    | not _ _ _ hv => rw [clear, clear_of_ofJson c hv]
  | _, reference _, _ => rfl
  | _, leaf _, h => by
    obtain ⟨_, rfl, hdefines⟩ := ofJson_eq_ok_iff.1 h
    cases hdefines with
    | leaf _ _ hl =>
      obtain ⟨-, -, -, -, -, -, -, -, hnone⟩ := leafOf_eq_ok_iff.1 hl
      rw [clear, Leaf.clear, ← hnone]

theorem clearAll_of_ofItems : ∀ {items : List Json} (cs : List Condition),
    ofItems items = .ok cs → clearAll cs = cs
  | _, [], _ => rfl
  | [], _ :: _, h => nomatch h
  | v :: items, c :: cs, h => by
    obtain ⟨_, hv, h⟩ := bind_eq_ok_iff.1 h
    obtain ⟨_, hitems, h⟩ := bind_eq_ok_iff.1 h
    cases h
    rw [clearAll, clear_of_ofJson c hv, clearAll_of_ofItems cs hitems]

end

mutual

/-- The comparisons with a record, in the order of the tree. -/
def records : Condition → List Leaf
  | group _ _ cs => recordsAll cs
  | not _ c => records c
  | reference _ => []
  | leaf l => if l.observation.isSome then [l] else []

def recordsAll : List Condition → List Leaf
  | [] => []
  | c :: cs => records c ++ recordsAll cs

end

theorem recordsAll_eq_flatMap (cs : List Condition) : recordsAll cs = cs.flatMap records := by
  induction cs with
  | nil => rfl
  | cons c cs ih => rw [recordsAll, ih, List.flatMap_cons]

mutual

theorem records_clear : ∀ c : Condition, c.clear.records = []
  | group _ _ cs => by rw [clear, records, recordsAll_clearAll cs]
  | not _ c => by rw [clear, records, records_clear c]
  | reference _ => rfl
  | leaf _ => rfl

theorem recordsAll_clearAll : ∀ cs : List Condition, recordsAll (clearAll cs) = []
  | [] => rfl
  | c :: cs => by rw [clearAll, recordsAll, records_clear c, recordsAll_clearAll cs]; rfl

end

end Verdict.Condition
