import Verdict.Action.Pair
import Verdict.Condition.Inherit
import Verdict.Operator.Registry
import Verdict.Report
import Verdict.Schedule

/-!
# Evaluating rules

A comparison finds its operator, then the value and the fact side by side. A reference is
replaced by the condition of that name, which may not be inside itself. A group runs its
conditions by priority until one decides it.
-/
namespace Verdict

/-- What changes while rules run: the operators composed so far, and the provider's state. -/
structure World (σ : Type) where
  operators : Registry
  facts : σ

namespace World
variable {σ α : Type}

def operator (name : String) : Action (World σ) Operator := .read fun w =>
  let (r, operators) := w.operators.resolve name
  .write { w with operators } (.ofExcept r)

/-- An action on the facts alone. -/
def onFacts (action : Action σ α) : Action (World σ) α :=
  action.onPart World.facts fun facts w => { w with facts }

end World

namespace Condition
variable {σ : Type}

def Leaf.observe (p : Provider σ) (l : Leaf) : Action (World σ) Observation := do
  let o ← World.operator l.operator
  let (value, fact) ← World.onFacts
    ((p.value l.value).pair (p.factValue l.fact (l.params.getD .null) l.path))
  return ⟨fact, value, o.evaluate fact value⟩

/-- Evaluates a condition that is a comparison; no other can be evaluated alone. -/
def observe (p : Provider σ) : Condition → Action (World σ) (Leaf × Observation)
  | leaf l => do return (l, ← l.observe p)
  | reference r => .fail (.unresolvedReference r.condition)
  | group q _ _ => .fail (.groupNotEvaluable q.connective.key)
  | not _ _ => .fail (.groupNotEvaluable Connective.not.key)

/-- The priority of a condition in its group. -/
def effectivePriority (p : Provider σ) (facts : σ) : Condition → Int64
  | leaf l => (l.priority.or (p.factPriority facts l.fact)).getD 1
  | c => c.priority?.getD 1

end Condition

structure Policy where
  /-- Is a reference to a condition that is not there false instead of a fault? -/
  allowUndefinedConditions : Bool := false
  replaceFactsInEventParams : Bool := false
deriving DecidableEq

structure Engine where
  conditions : Table Condition
  policy : Policy

namespace Engine
open Condition

variable {σ : Type}

/-- The stored names that may still be expanded inside those of the chain. -/
def unexpanded (e : Engine) (chain : List String) : List String :=
  e.conditions.keys.filter fun name => !chain.contains name

theorem length_filter_append_lt {l chain : List String} {name : String} (hmem : name ∈ l)
    (hnew : name ∉ chain) :
    (l.filter fun k => !(chain ++ [name]).contains k).length <
      (l.filter fun k => !chain.contains k).length := by
  have hsub : (l.filter fun k => !(chain ++ [name]).contains k) =
      (l.filter fun k => !chain.contains k).filter (· != name) := by
    rw [List.filter_filter]
    congr 1
    funext k
    by_cases h : k = name <;> simp [h]
  rw [hsub]
  have hin : name ∈ l.filter fun k => !chain.contains k := by simp [hmem, hnew]
  refine List.length_filter_lt_length_iff_exists.2 ⟨name, hin, by simp⟩

theorem unexpanded_append_lt (e : Engine) {chain : List String} {name : String} {c : Condition}
    (hnew : name ∉ chain) (hget : e.conditions.get? name = some c) :
    (e.unexpanded (chain ++ [name])).length < (e.unexpanded chain).length :=
  length_filter_append_lt (Table.mem_keys_of_get? hget) hnew

/-- The condition that takes the place of a reference. -/
def realize (stored : Condition) (r : Reference) : Condition := stored.clear.inherit r

/-- The verdict on a condition, and the condition as it is afterwards. The chain holds the
names that are being expanded around it. -/
def evaluate (e : Engine) (p : Provider σ) (chain : List String) (c : Condition) :
    Action (World σ) (Bool × Condition) :=
  match c with
  | .group q h cs => do
    let w ← .state
    let (verdict, cs) ← Schedule.run q.neutral (cs.map fun c =>
      ⟨effectivePriority p w.facts c, c, evaluate e p chain c⟩)
    return (verdict, .group q h cs)
  | .not h c => do
    let (verdict, c) ← evaluate e p chain c
    return (!verdict, .not h c)
  | .leaf l => do
    let o ← l.observe p
    return (o.result, .leaf (l.record o))
  | .reference r =>
    if _hnew : r.condition ∈ chain then .fail (.circularReference (chain ++ [r.condition]))
    else
      match _hget : e.conditions.get? r.condition with
      | some stored => evaluate e p (chain ++ [r.condition]) (realize stored r)
      | none =>
        if e.policy.allowUndefinedConditions then
          return (false, .reference { r with extra := r.extra.insert "result" (.bool false) })
        else .fail (.undefinedCondition r.condition)
termination_by ((e.unexpanded chain).length, sizeOf c)
decreasing_by
  · apply Prod.Lex.right
    have := List.sizeOf_lt_of_mem ‹_›
    rw [group.sizeOf_spec]
    omega
  · apply Prod.Lex.right
    rw [not.sizeOf_spec]
    omega
  · apply Prod.Lex.left
    exact e.unexpanded_append_lt _hnew _hget

/-- Runs a rule. -/
def execute (e : Engine) (p : Provider σ) (rule : Rule) : Action (World σ) Report := do
  let (verdict, conditions) ← e.evaluate p [] rule.conditions
  let report ← .ofExcept (({ Report.ofRule rule with conditions }).setResult verdict)
  if e.policy.replaceFactsInEventParams then World.onFacts (report.resolveParams p)
  else return report

/-- Runs rules by descending priority, those of one priority in their order. -/
def executeAll (e : Engine) (p : Provider σ) (rules : List Rule) : Action (World σ) (List Report) :=
  Action.forEach (e.execute p) (rules.mergeSort fun r r' => decide (r'.priority ≤ r.priority))

end Engine
end Verdict
