import Verdict.Proofs.Action.Changes
import Verdict.Proofs.Evaluation.Depth

/-!
# What an evaluation sees

An evaluation looks at the state of the provider once for each group that it visits, to rank the
members. A sighted evaluation also gives these states, in the shape of the tree. Apart from that it
is the evaluation, step by step.
-/
namespace Verdict
open Verdict.Action Verdict.Condition

/-- For a group that is visited, the provider's state when it is, and what is seen for its members. -/
inductive Sight (σ : Type) where
  | nothing
  | group (facts : σ) (members : List (Sight σ))

namespace Engine
variable {σ : Type}

/-- The evaluation, with what it sees. -/
def sighted (e : Engine) (p : Provider σ) (chain : List String) (c : Condition) :
    Action (World σ) (Bool × Condition × Sight σ) :=
  match c with
  | .group q h cs => do
    let w ← .state
    let (verdict, members) ← Schedule.run q.neutral (cs.map fun c =>
      ⟨effectivePriority p w.facts c, (c, .nothing), sighted e p chain c⟩)
    return (verdict, .group q h (members.map Prod.fst), .group w.facts (members.map Prod.snd))
  | .not h c => do
    let (verdict, c, sight) ← sighted e p chain c
    return (!verdict, .not h c, sight)
  | .leaf l => do
    let o ← l.observe p
    return (o.result, .leaf (l.record o), .nothing)
  | .reference r =>
    if _hnew : r.condition ∈ chain then .fail (.circularReference (chain ++ [r.condition]))
    else
      match _hget : e.conditions.get? r.condition with
      | some stored => sighted e p (chain ++ [r.condition]) (realize stored r)
      | none =>
        if e.policy.allowUndefinedConditions then
          return (false, .reference { r with extra := r.extra.insert "result" (.bool false) },
            .nothing)
        else .fail (.undefinedCondition r.condition)
termination_by e.callDepth chain c
decreasing_by
  · exact Calls.callDepth_lt (.member ‹_›)
  · exact Calls.callDepth_lt .negated
  · exact Calls.callDepth_lt (.expansion _hnew _hget)

variable {e : Engine} {p : Provider σ} {chain : List String} {ref : Reference}

theorem sighted_of_mem (h : ref.condition ∈ chain) :
    e.sighted p chain (.reference ref) =
      .fail (.circularReference (chain ++ [ref.condition])) := by
  rw [sighted, dif_pos h]

theorem sighted_of_get? {stored : Condition} (hnew : ref.condition ∉ chain)
    (h : e.conditions.get? ref.condition = some stored) :
    e.sighted p chain (.reference ref) =
      e.sighted p (chain ++ [ref.condition]) (realize stored ref) := by
  rw [sighted, dif_neg hnew]
  split
  · rename_i stored' h'
    rw [Option.some.inj (h.symm.trans h')]
  · rename_i h'
    rw [h] at h'
    cases h'

theorem sighted_of_get?_eq_none (hnew : ref.condition ∉ chain)
    (h : e.conditions.get? ref.condition = none) :
    e.sighted p chain (.reference ref) =
      if e.policy.allowUndefinedConditions then
        pure (false, .reference { ref with extra := ref.extra.insert "result" (.bool false) },
          .nothing)
      else .fail (.undefinedCondition ref.condition) := by
  rw [sighted, dif_neg hnew]
  split
  · rename_i stored h'
    rw [h] at h'
    cases h'
  · rfl

/-- The task of a member of a group. -/
def task (e : Engine) (p : Provider σ) (chain : List String) (facts : σ) (c : Condition) :
    Task (World σ) Condition :=
  ⟨c.effectivePriority p facts, c, e.evaluate p chain c⟩

/-- The same task; nothing is seen for a member before it is evaluated. -/
def sightedTask (e : Engine) (p : Provider σ) (chain : List String) (facts : σ) (c : Condition) :
    Task (World σ) (Condition × Sight σ) :=
  ⟨c.effectivePriority p facts, (c, .nothing), e.sighted p chain c⟩

/-- A group is evaluated as it is with sight, if its members are. -/
theorem evaluate_group_eq_sighted {q : Quantifier} {h : Heading} {cs : List Condition}
    (hmembers : ∀ c ∈ cs, e.evaluate p chain c = Prod.map id Prod.fst <$> e.sighted p chain c) :
    e.evaluate p chain (.group q h cs) =
      Prod.map id Prod.fst <$> e.sighted p chain (.group q h cs) := by
  have htasks (w : World σ) : cs.map (e.task p chain w.facts) =
      (cs.map (e.sightedTask p chain w.facts)).mapIdx fun _ => Task.change Prod.fst := by
    refine List.ext_getElem (by simp) fun i hi _ => ?_
    rw [List.length_map] at hi
    simp [task, sightedTask, Task.change, hmembers cs[i] (List.getElem_mem hi)]
  have hsubjects (members : List (Condition × Sight σ)) :
      (members.mapIdx fun _ => Prod.fst) = members.map Prod.fst :=
    List.ext_getElem (by simp) fun i _ _ => by simp
  rw [evaluate, sighted, map_bind]
  refine bind_congr fun w => ?_
  change (Schedule.run q.neutral (cs.map (e.task p chain w.facts)) >>= _) =
    _ <$> (Schedule.run q.neutral (cs.map (e.sightedTask p chain w.facts)) >>= _)
  rw [htasks, Schedule.run_change, bind_map_left, map_bind]
  refine bind_congr fun v => ?_
  exact congrArg (fun cs' => (pure (v.1, group q h cs') : Action (World σ) (Bool × Condition)))
    (hsubjects v.2)

/-- Apart from what it gives besides, the sighted evaluation is the evaluation. -/
theorem evaluate_eq_sighted (e : Engine) (p : Provider σ) (chain : List String) (c : Condition) :
    e.evaluate p chain c = Prod.map id Prod.fst <$> e.sighted p chain c := by
  induction chain, c using Engine.evaluate.induct e with
  | case1 chain q h cs ih => exact evaluate_group_eq_sighted ih
  | case2 chain h c ih =>
    rw [evaluate, sighted, ih]
    simp only [map_bind, bind_map_left]
    rfl
  | case3 chain l =>
    rw [evaluate, sighted, map_bind]
    rfl
  | case4 chain ref hmem =>
    rw [evaluate_of_mem hmem, sighted_of_mem hmem]
    rfl
  | case5 chain ref hnew stored hget ih =>
    rw [evaluate_of_get? hnew hget, sighted_of_get? hnew hget, ih]
  | case6 chain ref hnew hget hallow =>
    rw [evaluate_of_get?_eq_none hnew hget, sighted_of_get?_eq_none hnew hget, if_pos hallow,
      if_pos hallow]
    rfl
  | case7 chain ref hnew hget hallow =>
    rw [evaluate_of_get?_eq_none hnew hget, sighted_of_get?_eq_none hnew hget, if_neg hallow,
      if_neg hallow]
    rfl

end Engine
end Verdict
