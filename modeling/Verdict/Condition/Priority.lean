import Verdict.Condition.Basic
import Verdict.Fault

/-!
# Priorities in definitions

A priority is a 64-bit integer. A double, and text that names a number, count by their
integer part; an integer is never taken through a double.
-/
namespace Verdict.Condition

/-- The integer part of a double, if 64 bits hold it. -/
def truncated? (x : Double) : Option Int64 := int64? x.trunc

def numberPriority? (n : Number) : Option Int64 := n.toInt64?.orElse fun _ => truncated? n.toDouble

def textPriority? (s : String) : Option Int64 :=
  ((integer? (Text.trim s.toList)).bind int64?).orElse fun _ => (Double.read? s).bind truncated?

/-- The priority that a member of a definition gives; null gives none. -/
def priorityOf : Option Json → Except DefinitionFault (Option Int64)
  | none => .ok none
  | some .null => .ok none
  | some v =>
    let priority := match v with
      | .number n => numberPriority? n
      | .string s => textPriority? s
      | _ => none
    match priority with
    | some p => .ok (some p)
    | none => .error (.invalidField "priority" (.notInteger v.text))

end Verdict.Condition
