import Verdict.Action.Basic
import Verdict.Json.Path

/-!
# Providers of facts

A provider answers requests for facts by their name, and may keep a state while it does.
A value that refers to a fact stands for the value of that fact.
-/
namespace Verdict

/-- An object that names a fact, perhaps with parameters and a path into the fact. -/
structure FactReference where
  id : String
  params : Json
  path : Option String

/-- Any object with a text under `fact` refers to a fact. -/
def FactReference.ofJson? (v : Json) : Option FactReference := do
  let id ← (← v.member? "fact").toString?
  return {
    id
    params := (v.member? "params").getD .null
    path := (v.member? "path").bind (·.toString?) }

/-- The part of a value at a path; a path that leads nowhere gives null. -/
def Json.project (v : Json) : Option String → Json
  | some path => (v.resolve? path).getD .null
  | none => v

namespace Json

theorem project_eq (v : Json) (path : Option String) :
    v.project path = path.elim v fun path => (v.resolve? path).getD .null := by
  cases path <;> rfl

/-- No path leads anywhere in null but to null itself. -/
theorem project_null (path : Option String) : Json.project .null path = .null := by
  cases path with
  | none => rfl
  | some path =>
    rw [project, resolve?, Path.follow?]
    cases Path.parts path <;> rfl

end Json

structure Provider (σ : Type) where
  factValue : String → Json → Option String → Action σ Json
  /-- The value itself, or that of the fact it refers to. -/
  value : Json → Action σ Json := fun v =>
    match FactReference.ofJson? v with
    | some r => factValue r.id r.params r.path
    | none => pure v
  /-- The priority of a condition on the fact that has none of its own. -/
  factPriority : σ → String → Option Int64 := fun _ _ => none

/-- Facts with fixed values, and without priorities. -/
def Provider.ofTable {σ : Type} (facts : Table Json) : Provider σ where
  factValue id _ path :=
    match facts.get? id with
    | some v => pure (v.project path)
    | none => .fail (.undefinedFact id)

end Verdict
