import Verdict.Condition.Writer
import Verdict.Fault

/-!
# Rules and their events

A rule is a condition tree and the event that it raises. Rules of higher priority run
first; the priority is positive, and the tree is not a comparison alone.
-/
namespace Verdict

structure Event where
  kind : String
  params : Option (Table Json)

namespace Event

def withParam (e : Event) (key : String) (value : Json) : Event :=
  { e with params := some ((e.params.getD .empty).insert key value) }

def toJson (e : Event) : Json :=
  .object (Condition.put (Table.empty.insert "type" (.string e.kind)) "params"
    (e.params.map .object))

end Event

structure Rule where
  name : Option String
  priority : Int64
  conditions : Condition
  event : Event

namespace Rule

/-- May the condition stand at the top of a rule? -/
def mayLead : Condition → Bool
  | .leaf _ => false
  | _ => true

def validate (r : Rule) : Except DefinitionFault Unit :=
  if r.priority ≤ 0 then .error (.invalidField "priority" .notPositive)
  else if !mayLead r.conditions then .error (.invalidField "conditions" .leafAtTop)
  else .ok ()

def validated (r : Rule) : Except DefinitionFault Rule := r.validate.map fun _ => r

def make (conditions : Condition) (event : Event) : Except DefinitionFault Rule :=
  validated ⟨none, 1, conditions, event⟩

def withName (r : Rule) (name : String) : Rule := { r with name := some name }

def withPriority (r : Rule) (priority : Int64) : Except DefinitionFault Rule :=
  validated { r with priority }

def toJson (r : Rule) : Json :=
  let t := Table.empty.insert "priority" (.ofInt64 r.priority)
  let t := t.insert "conditions" r.conditions.toJson
  let t := t.insert "event" r.event.toJson
  .object (Condition.put t "name" (r.name.map .string))

end Rule
end Verdict
