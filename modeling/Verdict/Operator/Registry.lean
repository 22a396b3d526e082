import Verdict.Operator.Defaults
import Verdict.Table

/-!
# Registry of operators

A name is that of a registered operator, or decorators and colons in front of one. The
registry remembers each operator that it composes under its name, and forgets those whose
name shows a part that is replaced or removed.
-/
namespace Verdict

structure Registry where
  operators : Table Operator
  decorators : Table Decorator

namespace Registry

def empty : Registry := ⟨.empty, .empty⟩

def withDefaults : Registry where
  operators := .ofList (Operator.defaults.map fun o => (o.name, o))
  decorators := .ofList (Decorator.defaults.map fun d => (d.name, d))

/-- Is the name made of something, a colon and `operator`? -/
def endsWith (operator key : String) : Bool := (':' :: operator.toList).isSuffixOf key.toList

/-- The parts of a name between its colons. -/
def segments (name : String) : List String :=
  (Text.split (· = ':') name.toList).map String.ofList

/-- Is one of the parts before the last one `decorator`? -/
def isDecoratedBy (decorator key : String) : Bool := (segments key).dropLast.contains decorator

def forgetOperator (r : Registry) (name : String) : Registry :=
  { r with operators := r.operators.retain fun key => !endsWith name key }

def forgetDecorator (r : Registry) (name : String) : Registry :=
  { r with operators := r.operators.retain fun key => !isDecoratedBy name key }

def addOperator (r : Registry) (o : Operator) : Registry :=
  let r := r.forgetOperator o.name
  { r with operators := r.operators.insert o.name o }

def removeOperator (r : Registry) (name : String) : Bool × Registry :=
  (r.operators.contains name, { r with operators := r.operators.erase name }.forgetOperator name)

def addDecorator (r : Registry) (d : Decorator) : Registry :=
  let r := r.forgetDecorator d.name
  { r with decorators := r.decorators.insert d.name d }

def removeDecorator (r : Registry) (name : String) : Bool × Registry :=
  (r.decorators.contains name,
    { r with decorators := r.decorators.erase name }.forgetDecorator name)

/--
The decorators in front of the longest part of a name that is in the table, and the
operator there. The parts are those between the colons of `name`.
-/
def peel (r : Registry) (name : String) :
    List String → Except Fault (List Decorator × Operator)
  | [] => .error (.unknownOperator name)
  | [_] => .error (.unknownOperator name)
  | d :: rest =>
    match r.decorators.get? d with
    | none => .error (.unknownDecorator d name)
    | some decorator =>
      match r.operators.get? (":".intercalate rest) with
      | some o => .ok ([decorator], o)
      | none => (peel r name rest).map fun (ds, o) => (decorator :: ds, o)

/-- Decorates from the inside out and remembers every layer. -/
def compose (r : Registry) (o : Operator) : List Decorator → Operator × Registry
  | [] => (o, r)
  | d :: ds =>
    let (inner, r) := compose r o ds
    let layer := d.decorate inner
    (layer, { r with operators := r.operators.insert layer.name layer })

/-- The operator of a name. -/
def resolve (r : Registry) (name : String) : Except Fault Operator × Registry :=
  match r.operators.get? name with
  | some o => (.ok o, r)
  | none =>
    match r.peel name (segments name) with
    | .error fault => (.error fault, r)
    | .ok (ds, o) =>
      let (composed, r) := r.compose o ds
      (.ok composed, r)

/-- The operator of a name, whatever the fault if it has none. -/
def get? (r : Registry) (name : String) : Option Operator × Registry :=
  let (found, r) := r.resolve name
  (found.toOption, r)

end Registry
end Verdict
