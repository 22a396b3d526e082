import Verdict.Number.Double

/-!
# Shortest decimals

The decimal with the fewest digits that reads back as a given double: of two such
the nearer, and of two equally near the one with an even last digit.
-/
namespace Verdict

/-- Removes the zeros at the end of a numeral. -/
def Decimal.normalize (digits : Nat) (exponent : Int) : Nat × Int :=
  if h : digits = 0 then (0, 0)
  else if digits % 10 = 0 then normalize (digits / 10) (exponent + 1)
  else (digits, exponent)
termination_by digits

namespace Double

/-- The power of ten of the leading digit of a magnitude other than zero. -/
def decimalExponent (ticks : Nat) : Int :=
  (Nat.toDigits 10 (ticks * tenPow 330 / twoPow 1074)).length - 331

def readsBack (ticks : Nat) (d : Nat × Int) : Bool := Decimal.ticks d.1 d.2 == ticks

/-- The neighbours of a magnitude on the grid of multiples of `10 ^ e`, the nearer one first. -/
def neighbours (ticks : Nat) (e : Int) : List (Nat × Int) :=
  let num := if e < 0 then ticks * tenPow e.natAbs else ticks
  let den := if e < 0 then twoPow 1074 else twoPow 1074 * tenPow e.natAbs
  let low := num / den
  if 2 * (num % den) < den ∨ 2 * (num % den) = den ∧ low % 2 = 0 then [(low, e), (low + 1, e)]
  else [(low + 1, e), (low, e)]

/-- The decimal that equals the magnitude. -/
def exactDecimal (ticks : Nat) : Nat × Int := (ticks * tenPow 1074 / twoPow 1074, -1074)

/-- The neighbours of a magnitude on finer and finer grids, down to seventeen digits. -/
def candidates (ticks : Nat) : List (Nat × Int) :=
  let top := decimalExponent ticks
  (List.range 17).flatMap fun (n : Nat) => neighbours ticks (top - n)

/-- The first candidate that reads back. -/
def firstBack (ticks : Nat) : Nat × Int :=
  ((candidates ticks).find? (readsBack ticks)).getD (exactDecimal ticks)

/-- Digits and exponent of the shortest decimal, without zeros at its end. -/
def shortest (x : Double) : Nat × Int :=
  let decimal := firstBack x.magnitude
  Decimal.normalize decimal.1 decimal.2

end Double
end Verdict
