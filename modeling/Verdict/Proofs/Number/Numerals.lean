import Verdict.Number.Literal
import Verdict.Proofs.Text.Split

/-!
# The grammar of numerals

An integer is a run of digits, perhaps under a sign. A decimal has digits on at least one side of
its point, and perhaps an exponent. The readers accept just these texts, and the names of the
infinities and of no number.
-/
namespace Verdict

/-- What may stand in front of a numeral, and whether that makes it negative. -/
inductive Sign : Bool → List Char → Prop
  | none : Sign false []
  | plus : Sign false ['+']
  | minus : Sign true ['-']

def AllDigits (cs : List Char) : Prop := ∀ c ∈ cs, c.isDigit = true

inductive IntegerText : List Char → Int → Prop
  | mk {negative : Bool} {mark digits : List Char} (hmark : Sign negative mark)
      (hne : digits ≠ []) (hdigits : AllDigits digits) :
      IntegerText (mark ++ digits) (signed negative (Nat.ofDigitChars 10 digits 0))

/-- A point and digits, or nothing. -/
inductive FractionText : List Char → List Char → Prop
  | none : FractionText [] []
  | point {fraction : List Char} (hdigits : AllDigits fraction) :
      FractionText ('.' :: fraction) fraction

inductive ExponentText : List Char → Int → Prop
  | none : ExponentText [] 0
  | mark {c : Char} {cs : List Char} {n : Int} (hc : c = 'e' ∨ c = 'E') (h : IntegerText cs n) :
      ExponentText (c :: cs) n

inductive DecimalText : List Char → Decimal → Prop
  | mk {negative : Bool} {mark whole pointed fraction rest : List Char} {exponent : Int}
      (hmark : Sign negative mark) (hwhole : AllDigits whole)
      (hfraction : FractionText pointed fraction) (hne : whole ≠ [] ∨ fraction ≠ [])
      (hexponent : ExponentText rest exponent) :
      DecimalText (mark ++ (whole ++ (pointed ++ rest))) (.ofParts negative whole fraction exponent)

inductive FloatingText : List Char → Floating → Prop
  | decimal {cs : List Char} {d : Decimal} (h : DecimalText cs d) : FloatingText cs (.ofDecimal d)
  | infinity {negative : Bool} {mark name : List Char} (hmark : Sign negative mark)
      (hname : name.map (·.toLower) = "inf".toList ∨ name.map (·.toLower) = "infinity".toList) :
      FloatingText (mark ++ name) (.infinite negative)
  | nan {negative : Bool} {mark name : List Char} (hmark : Sign negative mark)
      (hname : name.map (·.toLower) = "nan".toList) : FloatingText (mark ++ name) .nan

variable {negative : Bool} {mark body cs : List Char}

/-! Signs and digits. -/

theorem exists_sign_of_splitSign (h : splitSign cs = (negative, body)) :
    ∃ mark, Sign negative mark ∧ cs = mark ++ body := by
  unfold splitSign at h
  split at h
  · cases h
    exact ⟨['-'], .minus, rfl⟩
  · cases h
    exact ⟨['+'], .plus, rfl⟩
  · cases h
    exact ⟨[], .none, rfl⟩

/-- A sign is split off again if no other follows it. -/
theorem Sign.splitSign_append (h : Sign negative mark)
    (hbody : ∀ c ∈ body.head?, c ≠ '-' ∧ c ≠ '+') : splitSign (mark ++ body) = (negative, body) := by
  cases h with
  | plus => rfl
  | minus => rfl
  | none =>
    change splitSign body = (false, body)
    unfold splitSign
    split
    · exact absurd rfl (hbody '-' rfl).1
    · exact absurd rfl (hbody '+' rfl).2
    · rfl

theorem ne_sign_of_isDigit {c : Char} (h : c.isDigit = true) : c ≠ '-' ∧ c ≠ '+' := by
  constructor
  · rintro rfl
    exact absurd h (by decide)
  · rintro rfl
    exact absurd h (by decide)

theorem AllDigits.of_mem_head? (h : AllDigits cs) : ∀ c ∈ cs.head?, c.isDigit = true :=
  fun c hc => h c (List.mem_of_mem_head? hc)

theorem allDigits_takeWhile (cs : List Char) : AllDigits (cs.takeWhile Char.isDigit) :=
  fun _ hc => List.all_eq_true.1 List.all_takeWhile _ hc

theorem digits?_eq_some_iff {n : Nat} :
    digits? cs = some n ↔ cs ≠ [] ∧ AllDigits cs ∧ Nat.ofDigitChars 10 cs 0 = n := by
  unfold digits? AllDigits
  by_cases hne : cs = []
  · simp [hne]
  · by_cases hall : ∀ c ∈ cs, c.isDigit = true
    · simp [hne]
    · simp [hne, hall]

theorem integer?_eq_some_iff {n : Int} : integer? cs = some n ↔ IntegerText cs n := by
  constructor
  · intro h
    rcases hsplit : splitSign cs with ⟨negative, body⟩
    rw [integer?, hsplit] at h
    obtain ⟨k, hk, rfl⟩ := Option.map_eq_some_iff.1 h
    obtain ⟨hne, hdigits, rfl⟩ := digits?_eq_some_iff.1 hk
    obtain ⟨mark, hmark, rfl⟩ := exists_sign_of_splitSign hsplit
    exact .mk hmark hne hdigits
  · rintro ⟨hmark, hne, hdigits⟩
    have hsplit := hmark.splitSign_append fun c hc => ne_sign_of_isDigit (hdigits.of_mem_head? c hc)
    rw [integer?, hsplit]
    exact Option.map_eq_some_iff.2 ⟨_, digits?_eq_some_iff.2 ⟨hne, hdigits, rfl⟩, rfl⟩

/-! Decimals. -/

variable {pointed fraction rest : List Char}

/-- A fraction and an exponent are set off by what no run of digits goes on with. -/
theorem ExponentText.head?_spec {n : Int} (h : ExponentText cs n) :
    ∀ c ∈ cs.head?, c.isDigit = false ∧ c ≠ '.' := by
  cases h with
  | none => nofun
  | mark hc _ =>
    rintro _ ⟨⟩
    rcases hc with rfl | rfl
    · decide
    · decide

theorem FractionText.head?_append (h : FractionText pointed fraction)
    (hrest : ∀ c ∈ rest.head?, c.isDigit = false) :
    ∀ c ∈ (pointed ++ rest).head?, c.isDigit = false := by
  cases h with
  | none => exact hrest
  | point _ =>
    rintro _ ⟨⟩
    rfl

namespace Decimal

theorem exponent?_eq_some_iff {n : Int} : exponent? cs = some n ↔ ExponentText cs n := by
  cases cs with
  | nil =>
    constructor
    · rintro ⟨⟩
      exact .none
    · rintro ⟨⟩
      rfl
  | cons c cs =>
    have hexponent : exponent? (c :: cs) = if c = 'e' ∨ c = 'E' then integer? cs else none := rfl
    rw [hexponent]
    by_cases hc : c = 'e' ∨ c = 'E'
    · rw [if_pos hc, integer?_eq_some_iff]
      constructor
      · exact .mark hc
      · rintro (_ | ⟨-, h⟩)
        exact h
    · rw [if_neg hc]
      constructor
      · nofun
      · rintro (_ | ⟨h, -⟩)
        exact absurd h hc

/-- What is read behind the point, if there is one. -/
theorem fractionText_fractionAndRest (cs : List Char) :
    ∃ pointed, FractionText pointed (fractionAndRest cs).1 ∧
      cs = pointed ++ (fractionAndRest cs).2 := by
  unfold fractionAndRest
  split
  · rename_i cs
    have htext := FractionText.point (allDigits_takeWhile cs)
    refine ⟨_, htext, ?_⟩
    rw [List.cons_append, List.takeWhile_append_dropWhile]
  · exact ⟨[], .none, rfl⟩

theorem fractionAndRest_append (h : FractionText pointed fraction)
    (hrest : ∀ c ∈ rest.head?, c.isDigit = false ∧ c ≠ '.') :
    fractionAndRest (pointed ++ rest) = (fraction, rest) := by
  cases h with
  | none =>
    change fractionAndRest rest = ([], rest)
    unfold fractionAndRest
    split
    · exact absurd rfl (hrest '.' rfl).2
    · rfl
  | point hdigits =>
    obtain ⟨htake, hdrop⟩ := Text.takeWhile_dropWhile_append hdigits fun c hc => (hrest c hc).1
    change ((fraction ++ rest).takeWhile _, (fraction ++ rest).dropWhile _) = _
    rw [htake, hdrop]

theorem decimalText_of_read? {d : Decimal} (h : read? cs = some d) : DecimalText cs d := by
  rcases hsplit : splitSign cs with ⟨negative, body⟩
  obtain ⟨mark, hmark, rfl⟩ := exists_sign_of_splitSign hsplit
  obtain ⟨pointed, hfraction, hbehind⟩ :=
    fractionText_fractionAndRest (body.dropWhile Char.isDigit)
  rw [read?, hsplit] at h
  dsimp only at h
  split at h
  · cases h
  · rename_i hempty
    obtain ⟨exponent, hexponent, rfl⟩ := Option.map_eq_some_iff.1 h
    have hbody : body = body.takeWhile Char.isDigit ++
        (pointed ++ (fractionAndRest (body.dropWhile Char.isDigit)).2) := by
      rw [← hbehind, List.takeWhile_append_dropWhile]
    have hne : body.takeWhile Char.isDigit ≠ [] ∨
        (fractionAndRest (body.dropWhile Char.isDigit)).1 ≠ [] := by
      rw [Bool.and_eq_true, List.isEmpty_iff, List.isEmpty_iff] at hempty
      exact Decidable.not_and_iff_not_or_not.1 hempty
    have htext := DecimalText.mk hmark (allDigits_takeWhile body) hfraction hne
      (exponent?_eq_some_iff.1 hexponent)
    rwa [← hbody] at htext

theorem read?_of_decimalText {d : Decimal} (h : DecimalText cs d) : read? cs = some d := by
  obtain @⟨negative, mark, whole, pointed, fraction, rest, exponent, hmark, hwhole, hfraction, hne,
    hexponent⟩ := h
  have hrest := hexponent.head?_spec
  have hbehind := hfraction.head?_append fun c hc => (hrest c hc).1
  obtain ⟨htake, hdrop⟩ := Text.takeWhile_dropWhile_append hwhole hbehind
  have hstart : ∀ c ∈ (whole ++ (pointed ++ rest)).head?, c ≠ '-' ∧ c ≠ '+' := by
    intro c hc
    cases whole with
    | cons d ds =>
      obtain rfl : d = c := Option.some.inj hc
      exact ne_sign_of_isDigit (hwhole d List.mem_cons_self)
    | nil =>
      cases hfraction with
      | none => exact absurd rfl (hne.resolve_left fun h => h rfl)
      | point _ =>
        cases hc
        decide
  have hread := exponent?_eq_some_iff.2 hexponent
  rw [read?, hmark.splitSign_append hstart]
  dsimp only
  rw [htake, hdrop, fractionAndRest_append hfraction hrest]
  have hdigits : (whole.isEmpty && fraction.isEmpty) = false := by
    rcases hne with h | h
    · simp [h]
    · simp [h]
  simp [hdigits, hread]

theorem read?_eq_some_iff {d : Decimal} : read? cs = some d ↔ DecimalText cs d :=
  ⟨decimalText_of_read?, read?_of_decimalText⟩

end Decimal

/-! Floating-point values. -/

theorem toLower_of_isDigit {c : Char} (h : c.isDigit = true) : c.toLower = c := by
  have hle : c.val ≤ '9'.val := by
    simp only [Char.isDigit, Bool.and_eq_true, decide_eq_true_eq] at h
    exact h.2
  have hupper : ¬ ('A'.val ≤ c.val ∧ c.val ≤ 'Z'.val) := fun h =>
    absurd (UInt32.le_trans h.1 hle) (by decide)
  unfold Char.toLower
  exact dif_neg hupper

/-- What becomes a letter in lower case is none of the characters that a decimal begins with. -/
theorem begins_no_decimal {c d : Char} (hc : c.toLower = d) (hd : d = 'i' ∨ d = 'n') :
    c.isDigit = false ∧ c ≠ '.' ∧ c ≠ '-' ∧ c ≠ '+' := by
  subst hc
  refine ⟨?_, ?_, ?_, ?_⟩
  · cases h : c.isDigit with
    | false => rfl
    | true =>
      rw [toLower_of_isDigit h] at hd
      rcases hd with rfl | rfl <;> exact absurd h (by decide)
  all_goals
    rintro rfl
    revert hd
    decide

/-- The names of the floating-point values that are not finite. -/
def names : List (List Char) := ["inf".toList, "infinity".toList, "nan".toList]

variable {name : List Char}

theorem head?_of_mem_names (h : name.map (·.toLower) ∈ names) :
    ∃ c rest, name = c :: rest ∧ c.isDigit = false ∧ c ≠ '.' ∧ c ≠ '-' ∧ c ≠ '+' := by
  cases name with
  | nil => exact absurd h (by decide)
  | cons c rest =>
    refine ⟨c, rest, rfl, begins_no_decimal rfl ?_⟩
    have hhead : ∀ word ∈ names, word.head? = some 'i' ∨ word.head? = some 'n' := by decide
    simpa using hhead _ h

theorem Sign.splitSign_name (hmark : Sign negative mark) (h : name.map (·.toLower) ∈ names) :
    splitSign (mark ++ name) = (negative, name) := by
  obtain ⟨c, rest, rfl, -, -, hsign⟩ := head?_of_mem_names h
  apply hmark.splitSign_append
  rintro _ ⟨⟩
  exact hsign

theorem Sign.read?_name (hmark : Sign negative mark) (h : name.map (·.toLower) ∈ names) :
    Decimal.read? (mark ++ name) = Option.none := by
  have hsplit := hmark.splitSign_name h
  obtain ⟨c, rest, rfl, hdigit, hpoint, -⟩ := head?_of_mem_names h
  have htake : (c :: rest).takeWhile Char.isDigit = [] := by simp [hdigit]
  have hdrop : (c :: rest).dropWhile Char.isDigit = c :: rest := by simp [hdigit]
  have hfraction : Decimal.fractionAndRest (c :: rest) = ([], c :: rest) := by
    unfold Decimal.fractionAndRest
    split
    · rename_i heq
      exact absurd (List.cons.inj heq).1 hpoint
    · rfl
  rw [Decimal.read?, hsplit]
  dsimp only
  rw [htake, hdrop, hfraction]
  rfl

namespace Floating

/-- A text that is no decimal is read as a name. -/
theorem read?_of_none (hdecimal : Decimal.read? cs = none) (hsplit : splitSign cs = (negative, name)) :
    read? cs = if name.map (·.toLower) = "inf".toList ∨ name.map (·.toLower) = "infinity".toList
      then some (infinite negative)
      else if name.map (·.toLower) = "nan".toList then some nan else none := by
  rw [read?, hdecimal, hsplit]

theorem read?_eq_some_iff {x : Floating} : read? cs = some x ↔ FloatingText cs x := by
  constructor
  · intro h
    cases hdecimal : Decimal.read? cs with
    | some d =>
      rw [read?, hdecimal] at h
      cases h
      exact .decimal (Decimal.read?_eq_some_iff.1 hdecimal)
    | none =>
      rcases hsplit : splitSign cs with ⟨negative, name⟩
      obtain ⟨mark, hmark, rfl⟩ := exists_sign_of_splitSign hsplit
      rw [read?_of_none hdecimal hsplit] at h
      by_cases hinfinity : name.map (·.toLower) = "inf".toList ∨
          name.map (·.toLower) = "infinity".toList
      · rw [if_pos hinfinity] at h
        cases h
        exact .infinity hmark hinfinity
      · rw [if_neg hinfinity] at h
        by_cases hnan : name.map (·.toLower) = "nan".toList
        · rw [if_pos hnan] at h
          cases h
          exact .nan hmark hnan
        · rw [if_neg hnan] at h
          cases h
  · intro h
    cases h with
    | decimal h => rw [read?, Decimal.read?_eq_some_iff.2 h]
    | @infinity negative mark name hmark hname =>
      have hmem : name.map (·.toLower) ∈ names := by
        rcases hname with h | h
        · exact h ▸ List.mem_cons_self
        · exact h ▸ List.mem_cons_of_mem _ List.mem_cons_self
      rw [read?_of_none (hmark.read?_name hmem) (hmark.splitSign_name hmem), if_pos hname]
    | @nan negative mark name hmark hname =>
      have hmem : name.map (·.toLower) ∈ names :=
        hname ▸ List.mem_cons_of_mem _ (List.mem_cons_of_mem _ List.mem_cons_self)
      have hother : ¬ (name.map (·.toLower) = "inf".toList ∨
          name.map (·.toLower) = "infinity".toList) := by
        rw [hname]
        decide
      rw [read?_of_none (hmark.read?_name hmem) (hmark.splitSign_name hmem), if_neg hother,
        if_pos hname]

/-- A text stands for at most one floating-point value. -/
theorem eq_of_floatingText {x y : Floating} (hx : FloatingText cs x) (hy : FloatingText cs y) :
    x = y :=
  Option.some.inj ((read?_eq_some_iff.2 hx).symm.trans (read?_eq_some_iff.2 hy))

end Floating

/-! Integers are decimals. -/

theorem IntegerText.decimalText {n : Int} (h : IntegerText cs n) :
    ∃ d : Decimal, DecimalText cs d ∧ d.exponent = 0 ∧ d.digits = n.natAbs := by
  obtain @⟨negative, mark, digits, hmark, hne, hdigits⟩ := h
  have htext := DecimalText.mk hmark hdigits .none (.inl hne) .none
  rw [List.append_nil, List.append_nil] at htext
  refine ⟨_, htext, rfl, ?_⟩
  change Nat.ofDigitChars 10 (digits ++ []) 0 = _
  rw [List.append_nil]
  cases negative with
  | true => rw [signed, if_pos rfl, Int.natAbs_neg, Int.natAbs_natCast]
  | false => rfl

/-- Integers of 64 bits are far below the largest double. -/
theorem Decimal.exists_toDouble? {d : Decimal} (hexponent : d.exponent = 0)
    (hdigits : d.digits ≤ 0x10000000000000000) : ∃ x, d.toDouble? = some x := by
  have hlength : (Nat.toDigits 10 d.digits).length ≤ 20 := by
    apply (Nat.length_toDigits_le_iff (by decide) (by decide)).2
    exact Nat.lt_of_le_of_lt hdigits (by decide)
  have hratio : ratio d.digits 0 = (d.digits * twoPow 1074, 1) := by
    change (d.digits * 1 * twoPow 1074, 1) = _
    rw [Nat.mul_one]
  have hlog := Double.log2_ofInt_lt hdigits
  unfold toDouble?
  rw [hexponent, hratio]
  dsimp only
  by_cases hzero : d.digits = 0
  · rw [if_pos hzero]
    exact ⟨_, rfl⟩
  · rw [if_neg hzero, if_neg (by omega), if_neg (by omega), Double.ofTicks?, dif_pos hlog]
    exact ⟨_, rfl⟩

theorem IntegerText.exists_floatingText {n : Int} (h : IntegerText cs n)
    (hn : n.natAbs ≤ 0x10000000000000000) : ∃ x, FloatingText cs (.finite x) := by
  obtain ⟨d, htext, hexponent, hdigits⟩ := h.decimalText
  obtain ⟨x, hx⟩ := Decimal.exists_toDouble? hexponent (hdigits ▸ hn)
  have hfloating := FloatingText.decimal htext
  rw [Floating.ofDecimal, hx] at hfloating
  exact ⟨x, hfloating⟩

end Verdict
