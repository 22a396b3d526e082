import Verdict.Condition.Basic
import Verdict.Json.Printer

/-!
# Writing conditions

A condition is written as its extra members and, in their places, the members that it
has a meaning for. A group always states its priority.
-/
namespace Verdict.Condition

def put (t : Table Json) (key : String) : Option Json → Table Json
  | some v => t.insert key v
  | none => t

def Heading.toTable (h : Heading) : Table Json :=
  put (h.extra.insert "priority" (.ofInt64 h.priority)) "name" (h.name.map .string)

def Reference.toTable (r : Reference) : Table Json :=
  let t := put r.extra "name" (r.name.map .string)
  let t := put t "priority" (r.priority.map .ofInt64)
  t.insert "condition" (.string r.condition)

def Leaf.toTable (l : Leaf) : Table Json :=
  let t := put l.extra "priority" (l.priority.map .ofInt64)
  let t := put t "name" (l.name.map .string)
  let t := t.insert "operator" (.string l.operator)
  let t := t.insert "value" l.value
  let t := t.insert "fact" (.string l.fact)
  let t := put t "factResult" (l.observation.map (·.fact))
  let t := put t "valueResult" (l.observation.map (·.value))
  let t := put t "result" (l.observation.map fun o => .bool o.result)
  let t := put t "params" l.params
  put t "path" (l.path.map .string)

mutual

def toJson : Condition → Json
  | group q h cs => .object (h.toTable.insert q.connective.key (.array (toItems cs)))
  | not h c => .object (h.toTable.insert "not" (toJson c))
  | reference r => .object r.toTable
  | leaf l => .object l.toTable

def toItems : List Condition → List Json
  | [] => []
  | c :: cs => toJson c :: toItems cs

end

def text (c : Condition) : String := c.toJson.text

end Verdict.Condition
