import Verdict.Proofs.Evaluation.Depth
import Verdict.Proofs.Evaluation.Inquiries
import Verdict.Proofs.Operator.Grammar

/-!
# What an evaluation fails with

Whatever an evaluation fails with comes from a call that it may make: from a comparison whose
operator is unknown, or from a reference that is circular or leads nowhere. Or else the provider
failed with it.
-/
namespace Verdict
open Verdict.Action Verdict.Condition

/-- A name that does not resolve is unknown, or a part of it is. -/
theorem Registry.unknown_of_resolve {r : Registry} {name : String} {fault : Fault}
    (h : (r.resolve name).1 = .error fault) :
    fault = .unknownOperator name ∨ ∃ part, fault = .unknownDecorator part name := by
  cases hget : r.operators.get? name with
  | some o => simp [resolve, hget] at h
  | none =>
    cases hpeel : r.peel name (segments name) with
    | ok found => simp [resolve, hget, hpeel] at h
    | error e =>
      obtain rfl : e = fault := by simpa [resolve, hget, hpeel] using h
      rw [peel_eq_error hpeel]
      split
      · exact .inr ⟨_, rfl⟩
      · exact .inl rfl

namespace Engine

/-- What a fault of evaluating the condition comes from, where the provider fails as `E` allows. -/
inductive Blamed (e : Engine) (r : Registry) (E : Fault → Prop) (c : Condition) : Fault → Prop
  | provider {fault : Fault} (h : E fault) : Blamed e r E c fault
  | operator {n : Nat} {chain : List String} {l : Leaf} {fault : Fault}
      (h : e.Reaches c n chain (.leaf l)) (hresolve : (r.resolve l.operator).1 = .error fault) :
      Blamed e r E c fault
  | circular {n : Nat} {chain : List String} {ref : Reference}
      (h : e.Reaches c n chain (.reference ref)) (hmem : ref.condition ∈ chain) :
      Blamed e r E c (.circularReference (chain ++ [ref.condition]))
  | undefined {n : Nat} {chain : List String} {ref : Reference}
      (h : e.Reaches c n chain (.reference ref)) (hget : e.conditions.get? ref.condition = none)
      (hallow : ¬ e.policy.allowUndefinedConditions) :
      Blamed e r E c (.undefinedCondition ref.condition)

variable {σ : Type} {I : σ → Prop} {E : Fault → Prop} {r : Registry} {e : Engine} {p : Provider σ}

theorem ensures_observe_blamed
    (hp : ∀ inquiry, Ensures I (fun _ => True) E (p.inquire inquiry)) {c : Condition} {n : Nat}
    {chain : List String} {l : Leaf} (h : e.Reaches c n chain (.leaf l)) :
    Ensures (World.Extends r I) (fun _ => True) (e.Blamed r E c) (l.observe p) := by
  have hoperator : Ensures (World.Extends r I) (fun o => (r.resolve l.operator).1 = .ok o)
      (e.Blamed r E c) (World.operator l.operator) :=
    (World.yields_operator l.operator).mono (fun _ h => h) fun _ hresolve => .operator h hresolve
  have hvalue := hp (.value l.value)
  have hfact := hp (.factValue l.fact (l.params.getD .null) l.path)
  refine hoperator.bind fun o _ => ?_
  refine Ensures.bind (?_ : Ensures _ (fun _ => True) _ _) fun seen _ => Ensures.pure True.intro
  exact (World.ensures_onFacts (hvalue.pair hfact)).mono (fun _ _ => trivial)
    fun _ he => .provider he

/-- A call that evaluating `c` may make fails with a fault that comes from evaluating `c`. -/
theorem ensures_evaluate_blamed
    (hp : ∀ inquiry, Ensures I (fun _ => True) E (p.inquire inquiry)) {c : Condition}
    {chain : List String} {c' : Condition} {n : Nat} (h : e.Reaches c n chain c') :
    Ensures (World.Extends r I) (fun _ => True) (e.Blamed r E c) (e.evaluate p chain c') := by
  induction chain, c' using Engine.evaluate.induct e generalizing n with
  | case1 chain q heading cs ih =>
    rw [evaluate]
    refine Ensures.state.bind fun w _ => ?_
    refine (Schedule.ensures_run (P := fun _ _ => True) fun i task htask _ => ?_).bind fun v _ =>
      Ensures.pure True.intro
    rw [List.getElem?_map, Option.map_eq_some_iff] at htask
    obtain ⟨member, hmember, rfl⟩ := htask
    have hmem := List.mem_of_getElem? hmember
    exact ih member hmem (h.call (.member hmem))
  | case2 chain heading c' ih =>
    rw [evaluate]
    exact (ih (h.call .negated)).bind fun v _ => Ensures.pure True.intro
  | case3 chain l =>
    rw [evaluate]
    exact (ensures_observe_blamed hp h).bind fun o _ => Ensures.pure True.intro
  | case4 chain ref hmem =>
    rw [evaluate_of_mem hmem]
    exact Blamed.circular h hmem
  | case5 chain ref hnew stored hget ih =>
    rw [evaluate_of_get? hnew hget]
    exact ih (h.call (.expansion hnew hget))
  | case6 chain ref hnew hget hallow =>
    rw [evaluate_of_get?_eq_none hnew hget, if_pos hallow]
    exact Ensures.pure True.intro
  | case7 chain ref hnew hget hallow =>
    rw [evaluate_of_get?_eq_none hnew hget, if_neg hallow]
    exact Blamed.undefined h hget hallow

end Engine

theorem Report.ensures_resolveParams_fault {σ : Type} {I : σ → Prop} {E : Fault → Prop}
    {p : Provider σ} (hp : ∀ inquiry, Ensures I (fun _ => True) E (p.inquire inquiry))
    (report : Report) : Ensures I (fun _ => True) E (report.resolveParams p) := by
  unfold resolveParams
  cases report.event.params with
  | none => exact Ensures.pure True.intro
  | some params =>
    refine (Ensures.together (P := fun _ _ => True) params.size _ fun i x hx => ?_).bind
      fun _ _ => Ensures.pure True.intro
    rw [List.getElem?_map, Option.map_eq_some_iff] at hx
    obtain ⟨entry, -, rfl⟩ := hx
    exact (hp (.value entry.2)).bind fun v _ => Ensures.pure True.intro

namespace Engine
variable {σ : Type} {I : σ → Prop} {E : Fault → Prop} {r : Registry} {p : Provider σ}

/-- A rule fails with a fault of evaluating its conditions. -/
theorem ensures_execute_blamed
    (hp : ∀ inquiry, Ensures I (fun _ => True) E (p.inquire inquiry)) (e : Engine) (rule : Rule) :
    Ensures (World.Extends r I) (fun _ => True) (e.Blamed r E rule.conditions)
      (e.execute p rule) := by
  rw [execute_eq]
  refine (ensures_evaluate_blamed hp .start).bind fun v _ => ?_
  refine Ensures.ite ?_ (Ensures.pure True.intro)
  exact (World.ensures_onFacts (Report.ensures_resolveParams_fault hp (reported rule v))).mono
    (fun _ h => h) fun _ he => .provider he

/-- So does a rule that runs alone, with any operators that calls have made. -/
theorem blamed_of_execute (hp : ∀ inquiry, Ensures I (fun _ => True) E (p.inquire inquiry))
    {e : Engine} {rule : Rule} {w : World σ} (hw : World.Extends r I w) {fault : Fault}
    (h : ((e.execute p rule).run w).1 = .error fault) : e.Blamed r E rule.conditions fault :=
  ((ensures_execute_blamed hp e rule).run hw).1.of_eq_error h

end Engine
end Verdict
