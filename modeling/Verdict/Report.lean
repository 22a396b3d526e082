import Verdict.Action.Together
import Verdict.Provider
import Verdict.Rule.Basic

/-!
# Reports

What running a rule found: the tree with what its comparisons saw, the event, and the
verdict, which is set once.
-/
namespace Verdict

structure Report where
  conditions : Condition
  event : Event
  priority : Int64
  name : Option String
  result : Option Bool

namespace Report

def ofRule (r : Rule) : Report := ⟨r.conditions, r.event, r.priority, r.name, none⟩

def setResult (r : Report) (b : Bool) : Except Fault Report :=
  match r.result with
  | some _ => .error .resultAlreadySet
  | none => .ok { r with result := some b }

/-- Replaces the parameters of the event that refer to facts, all of them or none. -/
def resolveParams {σ : Type} (p : Provider σ) (r : Report) : Action σ Report :=
  match r.event.params with
  | none => pure r
  | some params => do
    let resolved ← Action.together params.size
      (params.entries.map fun (key, v) => do return (key, ← p.value v))
    return { r with event := { r.event with params := some ⟨resolved⟩ } }

/-- Replaces the parameters of a report where it is kept, beside the state of the provider. -/
def resolveInPlace {σ : Type} (p : Provider σ) : Action (Report × σ) Unit := do
  let (r, _) ← .state
  let resolved ← (r.resolveParams p).onPart Prod.snd fun s kept => (kept.1, s)
  .modify fun kept => (resolved, kept.2)

def toJson (r : Report) : Json :=
  .object (.ofList [
    ("conditions", r.conditions.toJson),
    ("event", r.event.toJson),
    ("name", .ofOption .string r.name),
    ("priority", .ofInt64 r.priority),
    ("result", .ofOption .bool r.result)])

def text (r : Report) : String := r.toJson.text

end Report
end Verdict
