import Verdict.Json.Printer
import Verdict.Json.Token
import Verdict.Proofs.Number.Written

/-!
# Written values are told apart

The compact text of a value determines the value, down to the kinds of its numbers, and shows where
it ends. So nothing inside a value, such as a quote in a text, can pass for the end of it.
-/
namespace Verdict.Json
open Layout

/-! Quoted texts. -/

theorem digitsIn?_hexDigit : ∀ n < 0x20,
    digitsIn? 16 ['0', '0', hexDigit (n / 16), hexDigit n] = some n := by
  decide

theorem content_short {e c : Char} (h : Token.shortEscape? e = some c) (rest : List Char) :
    Token.content ('\\' :: e :: rest) = (Token.content rest).map fun (points, length) =>
      (c.toNat :: points, length + 2) := by
  have he : e ≠ 'u' := by
    rintro rfl
    cases h
  cases hrest : Token.content rest <;> simp [Token.content, he, h, hrest]

/-- What is escaped is read as the character that it was. -/
theorem content_escape (c : Char) (rest : List Char) :
    Token.content (escape c ++ rest) = (Token.content rest).map fun (points, length) =>
      (c.toNat :: points, length + (escape c).length) := by
  unfold escape
  split
  · rename_i hquote
    subst hquote
    exact content_short rfl rest
  · split
    · rename_i hbackslash
      subst hbackslash
      exact content_short rfl rest
    · split
      · rename_i hcontrol
        split
        case h_6 =>
          have hpoint := digitsIn?_hexDigit c.toNat hcontrol
          cases hrest : Token.content rest <;> simp [Token.content, hpoint, hrest]
        -- the control characters that have a letter of their own
        all_goals
          rename_i hpoint
          have hc := Char.ofNat_toNat c
          rw [hpoint] at hc
          subst hc
          exact content_short rfl rest
      · cases hrest : Token.content rest <;> simp_all [Token.content]

theorem content_quoted (cs rest : List Char) :
    Token.content (cs.flatMap escape ++ '"' :: rest) =
      some (cs.map Char.toNat, (cs.flatMap escape).length + 1) := by
  induction cs with
  | nil => rfl
  | cons c cs ih =>
    rw [List.flatMap_cons, List.append_assoc, content_escape, ih, Option.map_some, List.map_cons,
      List.length_append, Nat.add_comm (escape c).length, Nat.add_right_comm]

theorem quoted_append_inj {s t : String} {rest rest' : List Char}
    (h : quoted s ++ rest = quoted t ++ rest') : s = t ∧ rest = rest' := by
  have h' : s.toList.flatMap escape ++ '"' :: rest = t.toList.flatMap escape ++ '"' :: rest' := by
    simpa [quoted] using h
  have hcontent := congrArg Token.content h'
  rw [content_quoted, content_quoted, Option.some_inj, Prod.mk.injEq] at hcontent
  have hlist : s.toList = t.toList :=
    (List.map_inj_right fun _ _ hcd => Char.toNat_inj.1 hcd).1 hcontent.1
  refine ⟨String.toList_inj.1 hlist, ?_⟩
  rw [hlist] at h'
  exact (List.cons.inj (List.append_cancel_left h')).2

/-! Numbers. -/

theorem integerText_eq (n : Int) :
    integerText n = signMark (decide (n < 0)) ++ Nat.toDigits 10 n.natAbs := by
  simp only [integerText, signMark, decide_eq_true_eq]

theorem integer?_integerText (n : Int) : integer? (integerText n) = some n := by
  have hsigned : signed (decide (n < 0)) n.natAbs = n := by
    by_cases h : n < 0
    · rw [signed, if_pos (decide_eq_true h)]
      omega
    · rw [signed, decide_eq_false h, if_neg Bool.false_ne_true]
      omega
  have hhead : ∀ c ∈ (Nat.toDigits 10 n.natAbs).head?, c.isDigit = true := fun c hc =>
    isDigit_of_mem_toDigits (List.mem_of_mem_head? hc)
  simp only [integerText_eq, integer?, splitSign_signMark _ hhead, digits?_toDigits,
    Option.map_some, hsigned]

theorem isNumeral_of_mem_numberText (n : Number) : ∀ c ∈ numberText n, isNumeral c := by
  cases n with
  | integer n _ =>
    rw [numberText, integerText_eq]
    exact List.forall_mem_append.2 ⟨isNumeral_of_mem_signMark, isNumeral_of_mem_toDigits⟩
  | double x => exact isNumeral_of_mem_write Layout.json x

/-- No text of an integer is the text of a double. -/
theorem integerText_ne_write (n : Int) (x : Double) : integerText n ≠ Layout.json.write x := by
  intro h
  obtain ⟨c, hc, hmark⟩ := exists_mark_mem_write (l := Layout.json) rfl x
  rw [← h, integerText, List.mem_append] at hc
  rcases hc with hc | hc
  · split at hc
    · rw [List.mem_singleton.1 hc] at hmark
      exact absurd hmark (by decide)
    · cases hc
  · have hdigit := isDigit_of_mem_toDigits hc
    rcases hmark with rfl | rfl
    · cases hdigit
    · cases hdigit

theorem numberText_injective : Function.Injective numberText := by
  rintro (⟨m, hm⟩ | x) (⟨n, hn⟩ | y) h
  · have hread := congrArg integer? h
    rw [numberText, numberText, integer?_integerText, integer?_integerText] at hread
    cases hread
    rfl
  · exact absurd h (integerText_ne_write m y)
  · exact absurd h.symm (integerText_ne_write n x)
  · exact congrArg Number.double (write_injective Layout.json h)

theorem numberText_ne_nil (n : Number) : numberText n ≠ [] := by
  cases n with
  | integer n _ => exact List.append_ne_nil_of_right_ne_nil _ Nat.toDigits_ne_nil
  | double x =>
    obtain ⟨c, hc, -⟩ := exists_mark_mem_write (l := Layout.json) rfl x
    exact List.ne_nil_of_mem hc

/-! Values. -/

/-- Nothing follows, or what separates and ends the values inside another. -/
def Ended (rest : List Char) : Prop := ∀ c ∈ rest.head?, c = ',' ∨ c = ']' ∨ c = '}'

/-- Where a text of a value may end, the text of this value ends and is that of no other value. -/
def Readable (v : Json) : Prop :=
  ∀ ⦃w : Json⦄ ⦃rest rest' : List Char⦄, Ended rest → Ended rest' →
    chars v ++ rest = chars w ++ rest' → v = w ∧ rest = rest'

theorem Ended.isNumeral_eq_false {rest : List Char} (h : Ended rest) :
    ∀ c ∈ rest.head?, isNumeral c = false := by
  intro c hc
  rcases h c hc with rfl | rfl | rfl <;> rfl

/-- The kind of the value that a text starts with. -/
def kindOf? (cs : List Char) : Option Kind :=
  cs.head?.bind fun c =>
    if isNumeral c then some .number
    else match c with
      | 'n' => some .null
      | 't' | 'f' => some .boolean
      | '"' => some .string
      | '[' => some .array
      | '{' => some .object
      | _ => none

theorem kindOf?_chars (v : Json) (rest : List Char) : kindOf? (chars v ++ rest) = some v.kind := by
  cases v with
  | null => rfl
  | bool b => cases b <;> rfl
  | number n =>
    rw [chars]
    cases hchars : numberText n with
    | nil => exact absurd hchars (numberText_ne_nil n)
    | cons c cs =>
      have hc : isNumeral c := isNumeral_of_mem_numberText n c (hchars ▸ List.mem_cons_self)
      simp only [kindOf?, List.cons_append, List.head?_cons, Option.bind_some, if_pos hc, kind]
  | string s => rfl
  | array items => rfl
  | object members => rfl

theorem kind_eq {v w : Json} {rest rest' : List Char} (h : chars v ++ rest = chars w ++ rest') :
    v.kind = w.kind := by
  have hkind := congrArg kindOf? h
  rwa [kindOf?_chars, kindOf?_chars, Option.some_inj] at hkind

theorem readable_null : Readable null := by
  intro w rest rest' _ _ h
  cases w with
  | null => exact ⟨rfl, List.append_cancel_left h⟩
  | _ => cases kind_eq h

theorem readable_bool (b : Bool) : Readable (bool b) := by
  intro w rest rest' _ _ h
  cases w with
  | bool b' =>
    cases b <;> cases b'
    · exact ⟨rfl, List.append_cancel_left h⟩
    · cases h
    · cases h
    · exact ⟨rfl, List.append_cancel_left h⟩
  | _ => cases kind_eq h

theorem readable_number (n : Number) : Readable (number n) := by
  intro w rest rest' hrest hrest' h
  cases w with
  | number m =>
    obtain ⟨htext, hbehind⟩ := Text.append_inj_of_class (isNumeral_of_mem_numberText n)
      (isNumeral_of_mem_numberText m) hrest.isNumeral_eq_false hrest'.isNumeral_eq_false h
    exact ⟨congrArg number (numberText_injective htext), hbehind⟩
  | _ => cases kind_eq h

theorem readable_string (s : String) : Readable (string s) := by
  intro w rest rest' _ _ h
  cases w with
  | string t =>
    obtain ⟨rfl, hbehind⟩ := quoted_append_inj h
    exact ⟨rfl, hbehind⟩
  | _ => cases kind_eq h

section
variable {α : Type}

/-- The parts one after the other, with commas between them. -/
def separated (part : α → List Char) : List α → List Char
  | [] => []
  | [a] => part a
  | a :: rest => part a ++ ',' :: separated part rest

theorem itemChars_eq : ∀ items : List Json, itemChars items = separated chars items
  | [] => rfl
  | [_] => by rw [itemChars, separated]
  | v :: w :: items => by rw [itemChars, separated, itemChars_eq (w :: items)] <;> simp

/-- A key and its value. -/
def memberPart (e : String × Json) : List Char := quoted e.1 ++ ':' :: chars e.2

theorem memberChars_eq : ∀ l : List (String × Json), memberChars l = separated memberPart l
  | [] => rfl
  | [_] => by rw [memberChars, separated, memberPart]
  | e :: e' :: l => by
    rw [memberChars, separated, memberChars_eq (e' :: l), memberPart] <;> simp

variable {part : α → List Char} {close : Char} {l l' : List α} {rest rest' : List Char}

/-- What stands behind the first part, when `l` are the others. -/
def behind (part : α → List Char) (close : Char) (rest : List Char) : List α → List Char
  | [] => close :: rest
  | a :: l => ',' :: (separated part (a :: l) ++ close :: rest)

theorem separated_cons_append (part : α → List Char) (close : Char) (rest : List Char) (a : α)
    (l : List α) :
    separated part (a :: l) ++ close :: rest = part a ++ behind part close rest l := by
  cases l with
  | nil => rfl
  | cons b l => exact List.append_assoc ..

theorem ended_behind (hclose : close = ']' ∨ close = '}') (l : List α) :
    Ended (behind part close rest l) := by
  cases l with
  | nil =>
    rintro _ ⟨⟩
    exact .inr hclose
  | cons a l =>
    rintro _ ⟨⟩
    exact .inl rfl

/-- Parts that can be told apart, one after the other and up to a character that ends them. -/
theorem separated_append_inj (hclose : close = ']' ∨ close = '}')
    (hstart : ∀ a cs cs', part a ++ cs ≠ close :: cs')
    (hparts : ∀ a ∈ l, ∀ b cs cs', Ended cs → Ended cs' → part a ++ cs = part b ++ cs' →
      a = b ∧ cs = cs')
    (h : separated part l ++ close :: rest = separated part l' ++ close :: rest') :
    l = l' ∧ rest = rest' := by
  have hne : close ≠ ',' := by rcases hclose with rfl | rfl <;> decide
  induction l generalizing l' with
  | nil =>
    cases l' with
    | nil => exact ⟨rfl, (List.cons.inj h).2⟩
    | cons b l' =>
      rw [separated_cons_append] at h
      exact absurd h.symm (hstart b _ _)
  | cons a l ih =>
    cases l' with
    | nil =>
      rw [separated_cons_append] at h
      exact absurd h (hstart a _ _)
    | cons b l' =>
      rw [separated_cons_append, separated_cons_append] at h
      obtain ⟨rfl, hbehind⟩ := hparts a List.mem_cons_self b _ _ (ended_behind hclose l)
        (ended_behind hclose l') h
      -- behind the first parts a comma or the end tells whether there are more
      cases l with
      | nil =>
        cases l' with
        | nil => exact ⟨rfl, (List.cons.inj hbehind).2⟩
        | cons b' l' => exact absurd (List.cons.inj hbehind).1 hne
      | cons a' l =>
        cases l' with
        | nil => exact absurd (List.cons.inj hbehind).1.symm hne
        | cons b' l' =>
          obtain ⟨hl, hrest⟩ := ih (fun a ha => hparts a (List.mem_cons_of_mem _ ha))
            (List.cons.inj hbehind).2
          exact ⟨congrArg (a :: ·) hl, hrest⟩

end

theorem readable_array {items : List Json} (h : ∀ v ∈ items, Readable v) :
    Readable (array items) := by
  intro w rest rest' _ _ he
  cases w with
  | array items' =>
    have hstart (v : Json) (cs cs' : List Char) : chars v ++ cs ≠ ']' :: cs' := by
      intro he
      have hkind := congrArg kindOf? he
      rw [kindOf?_chars] at hkind
      cases hkind
    rw [chars, chars, itemChars_eq, itemChars_eq] at he
    simp only [List.cons_append, List.append_assoc, List.nil_append, List.cons.injEq] at he
    obtain ⟨rfl, hrest⟩ := separated_append_inj (.inl rfl) hstart
      (fun v hv _ _ _ hcs hcs' => h v hv hcs hcs') he.2
    exact ⟨rfl, hrest⟩
  | _ => cases kind_eq he

theorem readable_object {members : List (String × Json)} (h : ∀ e ∈ members, Readable e.2) :
    Readable (object ⟨members⟩) := by
  intro w rest rest' _ _ he
  cases w with
  | object t =>
    obtain ⟨members'⟩ := t
    have hstart (e : String × Json) (cs cs' : List Char) : memberPart e ++ cs ≠ '}' :: cs' := nofun
    have hparts (e : String × Json) (hmem : e ∈ members) (e' : String × Json) (cs cs' : List Char)
        (hcs : Ended cs) (hcs' : Ended cs') (he : memberPart e ++ cs = memberPart e' ++ cs') :
        e = e' ∧ cs = cs' := by
      rw [memberPart, memberPart, List.append_assoc, List.append_assoc] at he
      obtain ⟨hkey, hvalue⟩ := quoted_append_inj he
      obtain ⟨hvalue, hbehind⟩ := h e hmem hcs hcs' (List.cons.inj hvalue).2
      exact ⟨Prod.ext hkey hvalue, hbehind⟩
    rw [chars, chars, memberChars_eq, memberChars_eq] at he
    simp only [List.cons_append, List.append_assoc, List.nil_append, List.cons.injEq] at he
    obtain ⟨rfl, hrest⟩ := separated_append_inj (.inr rfl) hstart hparts he.2
    exact ⟨rfl, hrest⟩
  | _ => cases kind_eq he

mutual

theorem readable : ∀ v : Json, Readable v
  | null => readable_null
  | bool b => readable_bool b
  | number n => readable_number n
  | string s => readable_string s
  | array items => readable_array (readable_items items)
  | object ⟨members⟩ => readable_object (readable_members members)

theorem readable_items : ∀ items : List Json, ∀ v ∈ items, Readable v
  | [] => nofun
  | v :: items => List.forall_mem_cons.2 ⟨readable v, readable_items items⟩

theorem readable_members : ∀ members : List (String × Json), ∀ e ∈ members, Readable e.2
  | [] => nofun
  | (_, v) :: members => List.forall_mem_cons.2 ⟨readable v, readable_members members⟩

end

/-- Different values have different texts, the kinds of their numbers included. -/
theorem text_injective : Function.Injective text := by
  intro v w h
  have hchars : chars v ++ [] = chars w ++ [] := by
    rw [List.append_nil, List.append_nil]
    exact String.ofList_injective h
  have hended : Ended [] := by
    rintro _ ⟨⟩
  exact (readable v hended hended hchars).1

end Verdict.Json
