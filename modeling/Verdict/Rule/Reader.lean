import Verdict.Condition.Reader
import Verdict.Decode
import Verdict.Rule.Basic

/-!
# Reading rules and events

An event needs its type, a rule needs its conditions and its event. A rule that is read
from text is also validated.
-/
namespace Verdict

/-- An event as far as it is read. -/
structure Event.Draft where
  kind : Option String := none
  params : Option (Table Json) := none

def Event.shape : Reader.Shape Event.Draft Event where
  name := "Event"
  fields := [
    .make "type" .string fun kind d => { d with kind := some kind },
    .make "params" (.optional .table) fun params d => { d with params }]
  initial := {}
  finish missing d :=
    match d.kind with
    | some kind => .ok ⟨kind, d.params⟩
    | none => .error (missing "type" 0)

def Event.reader : Reader Event := .record Event.shape

def Condition.reader : Reader Condition := fun o d => do
  (Condition.ofJson (← Reader.json o d)).mapError fun f => .shape (.definition f)

/-- A rule as far as it is read. -/
structure Rule.Draft where
  name : Option String := none
  priority : Int64 := 1
  conditions : Option Condition := none
  event : Option Event := none

def Rule.shape : Reader.Shape Rule.Draft Rule where
  name := "Rule"
  fields := [
    .make "name" (.optional .string) fun name d => { d with name },
    .make "priority" .int64 fun priority d => { d with priority },
    .make "conditions" Condition.reader fun c d => { d with conditions := some c },
    .make "event" Event.reader fun e d => { d with event := some e }]
  initial := {}
  finish missing d :=
    match d.conditions, d.event with
    | some conditions, some event => .ok ⟨d.name, d.priority, conditions, event⟩
    | none, _ => .error (missing "conditions" 2)
    | _, none => .error (missing "event" 3)

def Rule.reader : Reader Rule := .record Rule.shape

/-- The rule that a text defines. -/
def Rule.ofText (s : String) : Except Fault Rule := do
  let r ← (Rule.reader.ofText s).mapError Fault.json
  r.validated.mapError Fault.definition

end Verdict
