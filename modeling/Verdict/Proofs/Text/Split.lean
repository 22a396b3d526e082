import Verdict.Text.Split

/-!
# Pieces of a text

A text is its pieces with the separators between them, and no piece has a separator in it. The
front of a text that is of one class ends where the first character of another stands.
-/
namespace Verdict.Text

theorem not_mem_of_mem_split {p : Char → Bool} {c : Char} (h : p c) (cs : List Char) :
    ∀ piece ∈ split p cs, c ∉ piece := by
  induction cs with
  | nil => simp [split]
  | cons d cs ih =>
    by_cases hd : p d
    · simpa [split, hd] using ih
    · have hne : c ≠ d := fun he => hd (he ▸ h)
      cases hs : split p cs with
      | nil => exact absurd hs (split_ne_nil p cs)
      | cons piece rest =>
        rw [hs] at ih
        simpa [split, hd, hs, hne] using ih

theorem split_eq_singleton {p : Char → Bool} {cs : List Char} (h : ∀ c ∈ cs, p c = false) :
    split p cs = [cs] := by
  induction cs with
  | nil => rfl
  | cons d cs ih =>
    have hd : p d = false := h d (by simp)
    simp [split, hd, ih fun c hc => h c (by simp [hc])]

theorem intercalate_split (sep : Char) (cs : List Char) :
    [sep].intercalate (split (· = sep) cs) = cs := by
  induction cs with
  | nil => rfl
  | cons d cs ih =>
    have hne := split_ne_nil (· = sep) cs
    by_cases hd : d = sep
    · subst hd
      simp [split, List.intercalate_cons_of_ne_nil hne, ih]
    · cases hs : split (· = sep) cs with
      | nil => exact absurd hs hne
      | cons piece rest =>
        rw [hs] at ih
        cases rest with
        | nil => simpa [split, hd, hs] using ih
        | cons piece' rest => simpa [split, hd, hs] using ih

variable {p : Char → Bool} {front front' rest rest' : List Char}

theorem takeWhile_dropWhile_append (hfront : ∀ c ∈ front, p c = true)
    (hrest : ∀ c ∈ rest.head?, p c = false) :
    (front ++ rest).takeWhile p = front ∧ (front ++ rest).dropWhile p = rest := by
  rw [List.takeWhile_append_of_pos hfront, List.dropWhile_append_of_pos hfront]
  cases rest with
  | nil => simp
  | cons c cs => simp [hrest c rfl]

theorem append_inj_of_class (hfront : ∀ c ∈ front, p c = true)
    (hfront' : ∀ c ∈ front', p c = true) (hrest : ∀ c ∈ rest.head?, p c = false)
    (hrest' : ∀ c ∈ rest'.head?, p c = false) (h : front ++ rest = front' ++ rest') :
    front = front' ∧ rest = rest' := by
  obtain ⟨htake, hdrop⟩ := takeWhile_dropWhile_append hfront hrest
  obtain ⟨htake', hdrop'⟩ := takeWhile_dropWhile_append hfront' hrest'
  rw [h] at htake hdrop
  exact ⟨htake.symm.trans htake', hdrop.symm.trans hdrop'⟩

end Verdict.Text
