import Verdict.Operator.Registry
import Verdict.Proofs.Text.Split

/-!
# Parts of operator names

A name is its parts with colons between them. A key that is forgotten for what it ends with, or
for a decorator in it, is forgotten with more parts in front of it as well.
-/
namespace Verdict
namespace Registry

theorem segments_ne_nil (name : String) : segments name ≠ [] := by
  simpa [segments] using Text.split_ne_nil _ _

theorem intercalate_segments (name : String) : ":".intercalate (segments name) = name := by
  rw [← String.toList_inj, String.toList_intercalate, segments, List.map_map]
  have h : (String.toList ∘ String.ofList) = id := funext fun _ => String.toList_ofList
  rw [h, List.map_id]
  exact Text.intercalate_split ':' name.toList

theorem colon_not_mem_of_mem_segments {name part : String} (h : part ∈ segments name) :
    ':' ∉ part.toList := by
  obtain ⟨piece, hpiece, rfl⟩ := List.mem_map.1 h
  rw [String.toList_ofList]
  exact Text.not_mem_of_mem_split (p := (· = ':')) (by simp) _ piece hpiece

theorem segments_append (part rest : String) :
    segments (part ++ ":" ++ rest) = segments part ++ segments rest := by
  have h : (part ++ ":" ++ rest).toList = part.toList ++ ':' :: rest.toList := by simp
  rw [segments, h, Text.split_append_separator _ (by simp), List.map_append]
  rfl

theorem segments_eq_singleton {part : String} (h : ':' ∉ part.toList) :
    segments part = [part] := by
  have hfree : ∀ c ∈ part.toList, decide (c = ':') = false := by
    intro c hc
    have : c ≠ ':' := fun he => h (he ▸ hc)
    simpa using this
  simp [segments, Text.split_eq_singleton hfree]

theorem segments_intercalate {parts : List String} (hne : parts ≠ [])
    (hfree : ∀ part ∈ parts, ':' ∉ part.toList) : segments (":".intercalate parts) = parts := by
  induction parts with
  | nil => exact absurd rfl hne
  | cons part rest ih =>
    have hpart := segments_eq_singleton (hfree part (by simp))
    by_cases hrest : rest = []
    · simpa [hrest] using hpart
    · rw [String.intercalate_cons_of_ne_nil hrest, segments_append, hpart,
        ih hrest fun part' h => hfree part' (by simp [h])]
      rfl

theorem endsWith_iff {operator key : String} :
    endsWith operator key ↔ ∃ front : String, key = front ++ ":" ++ operator := by
  rw [endsWith, List.isSuffixOf_iff_suffix]
  constructor
  · rintro ⟨front, h⟩
    exact ⟨.ofList front, by rw [← String.toList_inj, ← h]; simp⟩
  · rintro ⟨front, rfl⟩
    exact ⟨front.toList, by simp⟩

theorem isDecoratedBy_iff {decorator key : String} :
    isDecoratedBy decorator key ↔ decorator ∈ (segments key).dropLast := by
  simp [isDecoratedBy]

/-- Keys that satisfy `p` still do so with one more part in front. -/
def Hereditary (p : String → Bool) : Prop := ∀ part rest, p rest → p (part ++ ":" ++ rest)

theorem hereditary_endsWith (operator : String) : Hereditary (endsWith operator) := by
  intro part rest h
  obtain ⟨front, rfl⟩ := endsWith_iff.1 h
  exact endsWith_iff.2 ⟨part ++ ":" ++ front, by simp [String.append_assoc]⟩

theorem hereditary_isDecoratedBy (decorator : String) : Hereditary (isDecoratedBy decorator) := by
  intro part rest h
  rw [isDecoratedBy_iff] at h ⊢
  rw [segments_append, List.dropLast_append_of_ne_nil (segments_ne_nil rest)]
  exact List.mem_append_right _ h

/-- A key that is `operator` or ends with it. -/
def isOrEndsWith (operator key : String) : Bool := key == operator || endsWith operator key

theorem hereditary_isOrEndsWith (operator : String) : Hereditary (isOrEndsWith operator) := by
  intro part rest h
  have hend : endsWith operator (part ++ ":" ++ rest) := by
    rcases Bool.or_eq_true _ _ ▸ h with h | h
    · exact endsWith_iff.2 ⟨part, by rw [eq_of_beq h]⟩
    · exact hereditary_endsWith operator part rest h
  simp [isOrEndsWith, hend]

/-- The parts at the end of a name make up a key that satisfies what the whole name must not. -/
theorem Hereditary.of_suffix {p : String → Bool} (hp : Hereditary p) {parts rest : List String}
    (hs : rest <:+ parts) (hne : rest ≠ []) (h : p (":".intercalate rest)) :
    p (":".intercalate parts) := by
  induction parts with
  | nil => exact absurd (List.suffix_nil.1 hs) hne
  | cons part parts ih =>
    rcases List.suffix_cons_iff.1 hs with rfl | hs
    · exact h
    · have hparts : parts ≠ [] := fun he => hne (List.suffix_nil.1 (he ▸ hs))
      rw [String.intercalate_cons_of_ne_nil hparts]
      exact hp _ _ (ih hs)

end Registry
end Verdict
