import Verdict.Operator.Basic
import Verdict.Text.Split

/-!
# The operators and decorators at hand

Numbers compare as doubles, and text that names a finite number compares as that number.
-/
namespace Verdict

namespace Json

/-- The finite number that a value is or names. -/
def toDouble? : Json → Option Double
  | number n => some n.toDouble
  | string s => Double.read? s
  | _ => none

def isNumeric (v : Json) : Bool := v.toDouble?.isSome

/-- Equality of a test: two numbers are equal as doubles, other values as they stand. -/
def strictEqual : Json → Json → Bool
  | number m, number n => m.toDouble == n.toDouble
  | v, w => v == w

/-- Is the value an item of an array, or text inside a text? -/
def includes (whole part : Json) : Bool :=
  match whole with
  | array items => items.any fun v => strictEqual v part
  | string s =>
    match part with
    | string t => Text.occursIn t.toList s.toList
    | _ => false
  | _ => false

/-- Is the value missing from an array or text? What can hold nothing excludes nothing. -/
def excludes (whole part : Json) : Bool :=
  match whole with
  | array _ | string _ => !includes whole part
  | _ => false

/-- Compares two values that both have a number. -/
def compareBy (test : Double → Double → Bool) (v w : Json) : Bool :=
  match v.toDouble?, w.toDouble? with
  | some x, some y => test x y
  | _, _ => false

end Json

open Json

def Operator.defaults : List Operator := [
  ⟨"equal", none, strictEqual⟩,
  ⟨"notEqual", none, fun v w => !strictEqual v w⟩,
  ⟨"in", none, fun v w => includes w v⟩,
  ⟨"notIn", none, fun v w => excludes w v⟩,
  ⟨"contains", some isArray, includes⟩,
  ⟨"doesNotContain", some isArray, excludes⟩,
  ⟨"lessThan", some isNumeric, compareBy fun x y => x < y⟩,
  ⟨"lessThanInclusive", some isNumeric, compareBy fun x y => x ≤ y⟩,
  ⟨"greaterThan", some isNumeric, compareBy fun x y => y < x⟩,
  ⟨"greaterThanInclusive", some isNumeric, compareBy fun x y => y ≤ x⟩]

/-- Does some item of an array pass? No other value has items. -/
def someItem (v : Json) (test : Json → Bool) : Bool :=
  match v with
  | array items => items.any test
  | _ => false

def everyItem (v : Json) (test : Json → Bool) : Bool :=
  match v with
  | array items => items.all test
  | _ => false

def Decorator.defaults : List Decorator := [
  ⟨"someFact", some isArray, fun fact value next => someItem fact fun v => next v value⟩,
  ⟨"someValue", none, fun fact value next => someItem value fun v => next fact v⟩,
  ⟨"everyFact", some isArray, fun fact value next => everyItem fact fun v => next v value⟩,
  ⟨"everyValue", none, fun fact value next => everyItem value fun v => next fact v⟩,
  ⟨"swap", none, fun fact value next => next value fact⟩,
  ⟨"not", none, fun fact value next => !next fact value⟩]

end Verdict
