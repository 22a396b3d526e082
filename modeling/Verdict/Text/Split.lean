/-!
# Splitting and searching text

A text is split at every character of a class; the pieces between them may be empty. A mark of
the byte order in front of a text is no part of it.
-/
namespace Verdict.Text

/-- The pieces of a text between the characters that satisfy `p`; there is always one. -/
def split (p : Char → Bool) : List Char → List (List Char)
  | [] => [[]]
  | c :: cs =>
    if p c then [] :: split p cs
    else
      match split p cs with
      | piece :: rest => (c :: piece) :: rest
      | [] => [[c]]

theorem split_ne_nil (p : Char → Bool) (cs : List Char) : split p cs ≠ [] := by
  cases cs with
  | nil => simp [split]
  | cons c cs =>
    by_cases h : p c
    · simp [split, h]
    · cases hs : split p cs <;> simp [split, h, hs]

/-- A separator divides the pieces of what is before it from those of what is after it. -/
theorem split_append_separator (p : Char → Bool) {c : Char} (h : p c) (cs ds : List Char) :
    split p (cs ++ c :: ds) = split p cs ++ split p ds := by
  induction cs with
  | nil => simp [split, h]
  | cons d cs ih =>
    by_cases hd : p d
    · simp [split, hd, ih]
    · cases hs : split p cs with
      | nil => exact absurd hs (split_ne_nil p cs)
      | cons piece rest => simp [split, hd, ih, hs]

/-- The text without a mark of its byte order in front. -/
def unmarked : List Char → List Char
  | '\ufeff' :: cs => cs
  | cs => cs

/-- Does `needle` stand anywhere in the text? -/
def occursIn (needle : List Char) : List Char → Bool
  | [] => needle.isEmpty
  | c :: cs => needle.isPrefixOf (c :: cs) || occursIn needle cs

end Verdict.Text
