import Verdict.Digest
import Verdict.Proofs.Json.Equality
import Verdict.Proofs.Json.Readable

/-!
# Zeros in equal values

Equal values are the same but for the signs of the zeros among their doubles. Their texts show these
signs, so they are digested alike just if all zeros have the same signs.
-/
namespace Verdict

theorem Double.eq_or_zero_of_beq {x y : Double} (h : (x == y) = true) :
    x.magnitude = y.magnitude ∧ (x.magnitude = 0 ∨ x.negative = y.negative) := by
  have hvalue := Double.beq_iff.1 h
  unfold Double.value at hvalue
  cases hx : x.negative <;> cases hy : y.negative <;> simp [hx, hy] at hvalue ⊢ <;> omega

namespace Json

mutual

/-- The signs of the zeros among the doubles of a value, in their order. -/
def zeroSigns : Json → List Bool
  | number (.double x) => if x.magnitude = 0 then [x.negative] else []
  | array items => zeroSignsOfItems items
  | object ⟨members⟩ => zeroSignsOfMembers members
  | _ => []

def zeroSignsOfItems : List Json → List Bool
  | [] => []
  | v :: rest => zeroSigns v ++ zeroSignsOfItems rest

def zeroSignsOfMembers : List (String × Json) → List Bool
  | [] => []
  | (_, v) :: rest => zeroSigns v ++ zeroSignsOfMembers rest

end

/-- Equal values have zeros in the same places, and are the same if the signs of these are. -/
def SameButZeros {α : Type} (signs : α → List Bool) (a b : α) : Prop :=
  (signs a).length = (signs b).length ∧ (signs a = signs b → a = b)

theorem sameButZeros_double {x y : Double} (h : (x == y) = true) :
    SameButZeros zeroSigns (number (.double x)) (number (.double y)) := by
  obtain ⟨hmagnitude, hsign⟩ := Double.eq_or_zero_of_beq h
  have heq (hnegative : x.negative = y.negative) : x = y := by
    cases x
    cases y
    cases hmagnitude
    cases hnegative
    rfl
  by_cases hzero : x.magnitude = 0
  · have hzero' : y.magnitude = 0 := hmagnitude ▸ hzero
    simp only [SameButZeros, zeroSigns, if_pos hzero, if_pos hzero', List.length_singleton,
      true_and]
    intro hsigns
    rw [heq (List.cons.inj hsigns).1]
  · obtain rfl := heq (hsign.resolve_left hzero)
    exact ⟨rfl, fun _ => rfl⟩

mutual

theorem sameButZeros : ∀ {v w : Json}, equal v w = true → SameButZeros zeroSigns v w
  | .null, w, h => by
    cases w with
    | null => exact ⟨rfl, fun _ => rfl⟩
    | _ => cases h
  | .bool a, w, h => by
    cases w with
    | bool b => exact eq_of_beq (a := a) h ▸ ⟨rfl, fun _ => rfl⟩
    | _ => cases h
  | .number m, w, h => by
    cases w with
    | number n =>
      cases m with
      | integer m =>
        cases n with
        | integer n =>
          obtain rfl := eq_of_beq (a := m) h
          exact ⟨rfl, fun _ => rfl⟩
        | double => cases h
      | double x =>
        cases n with
        | integer => cases h
        | double y => exact sameButZeros_double h
    | _ => cases h
  | .string s, w, h => by
    cases w with
    | string t => exact eq_of_beq (a := s) h ▸ ⟨rfl, fun _ => rfl⟩
    | _ => cases h
  | .array l, w, h => by
    cases w with
    | array l' =>
      obtain ⟨hlength, heq⟩ := sameButZeros_items h
      exact ⟨hlength, fun hsigns => congrArg array (heq hsigns)⟩
    | _ => cases h
  | .object ⟨l⟩, w, h => by
    cases w with
    | object t =>
      obtain ⟨l'⟩ := t
      obtain ⟨hlength, heq⟩ := sameButZeros_members h
      exact ⟨hlength, fun hsigns => congrArg (fun l => object ⟨l⟩) (heq hsigns)⟩
    | _ => cases h

theorem sameButZeros_items : ∀ {l l' : List Json}, equalItems l l' = true →
    SameButZeros zeroSignsOfItems l l'
  | [], [], _ => ⟨rfl, fun _ => rfl⟩
  | v :: l, v' :: l', h => by
    rw [equalItems, Bool.and_eq_true] at h
    obtain ⟨hv, hsame⟩ := sameButZeros h.1
    obtain ⟨hl, hsame'⟩ := sameButZeros_items h.2
    refine ⟨by rw [zeroSignsOfItems, zeroSignsOfItems, List.length_append, List.length_append,
      hv, hl], fun hsigns => ?_⟩
    obtain ⟨hfirst, hrest⟩ := List.append_inj hsigns hv
    rw [hsame hfirst, hsame' hrest]

theorem sameButZeros_members : ∀ {l l' : List (String × Json)}, equalMembers l l' = true →
    SameButZeros zeroSignsOfMembers l l'
  | [], [], _ => ⟨rfl, fun _ => rfl⟩
  | (k, v) :: l, (k', v') :: l', h => by
    simp only [equalMembers, Bool.and_eq_true, beq_iff_eq] at h
    obtain ⟨hv, hsame⟩ := sameButZeros h.1.2
    obtain ⟨hl, hsame'⟩ := sameButZeros_members h.2
    refine ⟨by rw [zeroSignsOfMembers, zeroSignsOfMembers, List.length_append, List.length_append,
      hv, hl], fun hsigns => ?_⟩
    obtain ⟨hfirst, hrest⟩ := List.append_inj hsigns hv
    rw [h.1.1, hsame hfirst, hsame' hrest]

end

/-- The texts of the two values do not collide. -/
def DigestedApart (v w : Json) : Prop := v.digest = w.digest → v.text = w.text

/-- Equal values are digested alike just if the signs of their zeros are the same. -/
theorem digest_eq_iff_of_beq {v w : Json} (h : (v == w) = true) (hapart : DigestedApart v w) :
    v.digest = w.digest ↔ zeroSigns v = zeroSigns w :=
  ⟨fun hdigest => congrArg zeroSigns (text_injective (hapart hdigest)),
    fun hsigns => congrArg digest ((sameButZeros h).2 hsigns)⟩

end Json
end Verdict
