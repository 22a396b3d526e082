import Verdict.Number.Double
import Verdict.Text.Blank

/-!
# Numerals in text

The written forms of numbers outside JSON: signed integers, indices, digits of a base, and
decimals with an optional point and exponent.
-/
namespace Verdict

/-- The sign in front of a numeral, and what follows it. -/
def splitSign : List Char → Bool × List Char
  | '-' :: cs => (true, cs)
  | '+' :: cs => (false, cs)
  | cs => (false, cs)

/-- The number written by a non-empty run of decimal digits. -/
def digits? (cs : List Char) : Option Nat :=
  if !cs.isEmpty && cs.all Char.isDigit then some (Nat.ofDigitChars 10 cs 0) else none

theorem isDigit_of_mem_toDigits {n : Nat} {c : Char} (h : c ∈ Nat.toDigits 10 n) : c.isDigit :=
  Nat.isDigit_of_mem_toDigits (by decide) (by decide) h

theorem digits?_toDigits (n : Nat) : digits? (Nat.toDigits 10 n) = some n := by
  have hdigits : (Nat.toDigits 10 n).all Char.isDigit :=
    List.all_eq_true.2 fun _ => isDigit_of_mem_toDigits
  simp [digits?, Nat.toDigits_ne_nil, hdigits]

/-- What a digit counts in bases up to sixteen. -/
def digitValue? (c : Char) : Option Nat :=
  let n := c.toNat
  if 48 ≤ n ∧ n ≤ 57 then some (n - 48)
  else if 97 ≤ n ∧ n ≤ 102 then some (n - 87)
  else if 65 ≤ n ∧ n ≤ 70 then some (n - 55)
  else none

/-- The number written by a non-empty run of digits of a base. -/
def digitsIn? (base : Nat) (cs : List Char) : Option Nat :=
  if cs.isEmpty then none
  else cs.foldl (fun acc c => do
    let n ← acc
    let d ← (digitValue? c).filter (· < base)
    some (base * n + d)) (some 0)

def signed (negative : Bool) (n : Nat) : Int := if negative then -(n : Int) else n

def integer? (cs : List Char) : Option Int :=
  let (negative, body) := splitSign cs
  (digits? body).map (signed negative)

/-- A place in a list: digits, perhaps under a plus sign, of at most 64 bits. -/
def index? : List Char → Option Nat
  | '+' :: cs => (digits? cs).filter (· < 0x10000000000000000)
  | cs => (digits? cs).filter (· < 0x10000000000000000)

def int64? (n : Int) : Option Int64 :=
  if -0x8000000000000000 ≤ n ∧ n < 0x8000000000000000 then some (Int64.ofInt n) else none

namespace Decimal

def ofParts (negative : Bool) (whole fraction : List Char) (exponent : Int) : Decimal :=
  ⟨negative, Nat.ofDigitChars 10 (whole ++ fraction) 0, exponent - fraction.length⟩

def exponent? : List Char → Option Int
  | [] => some 0
  | c :: cs => if c = 'e' ∨ c = 'E' then integer? cs else none

/-- The digits after a point, if there is one, and what follows them. -/
def fractionAndRest : List Char → List Char × List Char
  | '.' :: cs => (cs.takeWhile Char.isDigit, cs.dropWhile Char.isDigit)
  | cs => ([], cs)

/-- Reads a decimal that has a digit on at least one side of its point. -/
def read? (cs : List Char) : Option Decimal :=
  let (negative, body) := splitSign cs
  let whole := body.takeWhile Char.isDigit
  let (fraction, rest) := fractionAndRest (body.dropWhile Char.isDigit)
  if whole.isEmpty && fraction.isEmpty then none
  else (exponent? rest).map (ofParts negative whole fraction)

end Decimal

/-- What a numeral stands for as a floating-point value. -/
inductive Floating where
  | finite (x : Double)
  | infinite (negative : Bool)
  | nan
deriving DecidableEq

namespace Floating

def ofDecimal (d : Decimal) : Floating :=
  match d.toDouble? with
  | some x => finite x
  | none => infinite d.negative

/-- Reads a decimal, or the name of an infinity or of no number in any case of letters. -/
def read? (cs : List Char) : Option Floating :=
  match Decimal.read? cs with
  | some d => some (ofDecimal d)
  | none =>
    let (negative, body) := splitSign cs
    let name := body.map (·.toLower)
    if name = "inf".toList ∨ name = "infinity".toList then some (infinite negative)
    else if name = "nan".toList then some nan
    else none

def toDouble? : Floating → Option Double
  | finite x => some x
  | _ => none

end Floating

/-- The finite number that a text names, blanks at its ends left out. -/
def Double.read? (s : String) : Option Double :=
  (Floating.read? (Text.trim s.toList)).bind (·.toDouble?)

end Verdict
