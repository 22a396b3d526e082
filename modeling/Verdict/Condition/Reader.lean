import Verdict.Condition.Priority
import Verdict.Json.Draft

/-!
# Reading conditions

The first key present among `any`, `all`, `not` and `condition` decides what an object
defines; without one it is a comparison. The first fault is reported: priority, name,
the shape of the members, then the conditions inside from left to right.
-/
namespace Verdict.Condition

/-- The connective of a definition, should it have several. -/
def connectiveOf? (members : Table Json) : Option Connective :=
  if members.contains "any" then some .any
  else if members.contains "all" then some .all
  else if members.contains "not" then some .not
  else none

def optionalString (members : Table Json) (field : String) :
    Except DefinitionFault (Option String) :=
  match members.get? field with
  | none => .ok none
  | some .null => .ok none
  | some (.string s) => .ok (some s)
  | some v => .error (.invalidField field (.otherThanString v.kind))

def requiredString (members : Table Json) (field : String) : Except DefinitionFault String :=
  match members.get? field with
  | none => .error (.missingField field)
  | some (.string s) => .ok s
  | some v => .error (.invalidField field (.otherThanString v.kind))

def without (members : Table Json) (fields : List String) : Table Json :=
  members.retain fun key => !fields.contains key

/-- The heading of a group or negation under `key`. A priority of zero counts as none. -/
def headingOf (members : Table Json) (key : String) : Except DefinitionFault Heading := do
  let priority ← priorityOf (members.get? "priority")
  let name ← optionalString members "name"
  return {
    priority := (priority.filter (· != 0)).getD 1
    name
    extra := without members [key, "priority", "name"] }

def referenceOf (members : Table Json) : Except DefinitionFault Reference := do
  let condition ← match members.get? "condition" with
    | some (.string s) => .ok s
    | _ => .error (.invalidField "condition" .notString)
  let name ← optionalString members "name"
  let priority ← priorityOf (members.get? "priority")
  return { condition, name, priority, extra := without members ["condition", "name", "priority"] }

/-- The members that a comparison has a meaning for. -/
def leafFields : List String :=
  ["fact", "operator", "value", "params", "path", "priority", "name",
    "factResult", "valueResult", "result"]

def leafOf (members : Table Json) : Except DefinitionFault Leaf := do
  let fact ← requiredString members "fact"
  let operator ← requiredString members "operator"
  let value ← match members.get? "value" with
    | some v => .ok v
    | none => .error (.missingField "value")
  let path ← optionalString members "path"
  let priority ← priorityOf (members.get? "priority")
  let name ← optionalString members "name"
  return {
    fact
    operator
    value
    params := (members.get? "params").filter (!·.isNull)
    path
    priority
    name
    extra := without members leafFields
    observation := none }

mutual

def ofJson : Json → Except DefinitionFault Condition
  | .object ⟨members⟩ =>
    match connectiveOf? ⟨members⟩ with
    | some .any => do
      let heading ← headingOf ⟨members⟩ "any"
      return group .any heading (← groupAt "any" members)
    | some .all => do
      let heading ← headingOf ⟨members⟩ "all"
      return group .all heading (← groupAt "all" members)
    | some .not => do
      let heading ← headingOf ⟨members⟩ "not"
      return not heading (← negatedAt "not" members)
    | none =>
      if Table.contains ⟨members⟩ "condition" then (referenceOf ⟨members⟩).map reference
      else (leafOf ⟨members⟩).map leaf
  | v => .error (.notAnObject v.kind)

/-- The conditions in the array under `key`. -/
def groupAt (key : String) : List (String × Json) → Except DefinitionFault (List Condition)
  | [] => .error (.missingField key)
  | (k, v) :: rest =>
    if key = k then
      match v with
      | .array items => ofItems items
      | _ => .error (.notAnArray key)
    else groupAt key rest

/-- The condition under `key`. -/
def negatedAt (key : String) : List (String × Json) → Except DefinitionFault Condition
  | [] => .error (.missingField key)
  | (k, v) :: rest =>
    if key = k then
      match v with
      | .array _ => .error (.unexpectedArray key)
      | v => ofJson v
    else negatedAt key rest

def ofItems : List Json → Except DefinitionFault (List Condition)
  | [] => .ok []
  | v :: rest => do
    let c ← ofJson v
    return c :: (← ofItems rest)

end

/-- The condition that a text defines. -/
def ofText (s : String) : Except Fault Condition :=
  match Json.ofText? s with
  | some v => (ofJson v).mapError Fault.definition
  | none => .error (.json .malformed)

end Verdict.Condition
