import Verdict.Fault

/-!
# Operators and decorators

An operator is a named test of a fact against a value, perhaps behind a guard on the
fact. A decorator makes a new operator of one; the guard of the inner operator still
counts whenever the new one asks it.
-/
namespace Verdict

structure Operator where
  name : String
  guard : Option (Json → Bool)
  callback : Json → Json → Bool

structure Decorator where
  name : String
  guard : Option (Json → Bool)
  callback : Json → Json → (Json → Json → Bool) → Bool

namespace Operator

/-- An operator must have a name. -/
def make (name : String) (guard : Option (Json → Bool)) (callback : Json → Json → Bool) :
    Except Fault Operator :=
  if name = "" then .error .missingOperatorName else .ok ⟨name, guard, callback⟩

def accepts (o : Operator) (fact : Json) : Bool :=
  match o.guard with
  | none => true
  | some guard => guard fact

def evaluate (o : Operator) (fact value : Json) : Bool := o.accepts fact && o.callback fact value

def describe (o : Operator) : String :=
  "Operator \x7b name: " ++ Text.inspect o.name ++ ", guarded: " ++
    (if o.guard.isSome then "true" else "false") ++ " \x7d"

end Operator

namespace Decorator

/-- A decorator must have a name. -/
def make (name : String) (guard : Option (Json → Bool))
    (callback : Json → Json → (Json → Json → Bool) → Bool) : Except Fault Decorator :=
  if name = "" then .error .missingDecoratorName else .ok ⟨name, guard, callback⟩

/-- The operator `decorator:operator`, under the guard of the decorator. -/
def decorate (d : Decorator) (o : Operator) : Operator where
  name := d.name ++ ":" ++ o.name
  guard := d.guard
  callback fact value := d.callback fact value o.evaluate

def describe (d : Decorator) : String :=
  "OperatorDecorator \x7b name: " ++ Text.inspect d.name ++ ", guarded: " ++
    (if d.guard.isSome then "true" else "false") ++ " \x7d"

end Decorator
end Verdict
