import Verdict.Number.Shortest

/-!
# Written doubles

The text of a double from its shortest decimal. A layout says which decimal exponents
are written out in full and whether a whole number keeps a point.
-/
namespace Verdict

structure Layout where
  /-- Is a number whose leading digit has this power of ten written without an exponent? -/
  positional : Int → Bool
  pointZero : Bool

namespace Layout

/-- JSON writes `1e-5` to `1e+15` in full, and always a point or an exponent. -/
def json : Layout := ⟨fun e => -5 ≤ e && e ≤ 15, true⟩

/-- Settings write every number in full and whole numbers without a point. -/
def plain : Layout := ⟨fun _ => true, false⟩

def inFull (l : Layout) (digits : List Char) (exponent : Int) : List Char :=
  if 0 ≤ exponent then
    digits ++ List.replicate exponent.toNat '0' ++ (if l.pointZero then ['.', '0'] else [])
  else
    let places := exponent.natAbs
    if digits.length ≤ places then
      '0' :: '.' :: List.replicate (places - digits.length) '0' ++ digits
    else digits.take (digits.length - places) ++ '.' :: digits.drop (digits.length - places)

def scientific (digits : List Char) (power : Int) : List Char :=
  let mantissa := match digits with
    | d :: [] => [d]
    | d :: rest => d :: '.' :: rest
    | [] => []
  mantissa ++ 'e' :: (if power < 0 then '-' else '+') :: Nat.toDigits 10 power.natAbs

def write (l : Layout) (x : Double) : List Char :=
  let decimal := x.shortest
  let digits := Nat.toDigits 10 decimal.1
  let power := digits.length - 1 + decimal.2
  (if x.negative then ['-'] else []) ++
    (if l.positional power then l.inFull digits decimal.2 else scientific digits power)

end Layout
end Verdict
