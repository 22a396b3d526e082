import Verdict.Proofs.Action.AtOnce
import Verdict.Proofs.Evaluation.Meaning

/-!
# Evaluations that do not wait

If the provider answers at once what a rule asks it, and always the same, running the rule ends at
once, with an outcome that does not depend on which compositions the registry remembers, nor on
the provider's state. So rules that run one after the other do what each does alone.
-/
namespace Verdict
open Verdict.Action Verdict.Condition

variable {σ α : Type} {I : σ → Prop} {K : String → Json → Prop} {p : Provider σ}

/-! What running a rule may ask. -/

/-- The request that a value makes, if it refers to a fact. -/
def Json.requests (v : Json) : List (String × Json) :=
  ((FactReference.ofJson? v).map fun r => (r.id, r.params)).toList

def Comparison.requests (c : Comparison) : List (String × Json) :=
  (c.fact, c.params) :: c.value.requests

namespace Formula

mutual

/-- The requests of all comparisons of the formula. -/
def requests : Formula → List (String × Json)
  | comparison c => c.requests
  | constant _ => []
  | not f => requests f
  | group _ fs => requestsAll fs

def requestsAll : List Formula → List (String × Json)
  | [] => []
  | f :: fs => requests f ++ requestsAll fs

end

theorem requests_subset_requestsAll {f : Formula} {fs : List Formula} (h : f ∈ fs) :
    requests f ⊆ requestsAll fs := by
  induction fs with
  | nil => cases h
  | cons f' fs ih =>
    rw [requestsAll]
    rcases List.mem_cons.1 h with rfl | h
    · exact List.subset_append_left _ _
    · exact List.subset_append_of_subset_right _ (ih h)

end Formula

/-- The requests of the parameters of an event. -/
def Event.requests (event : Event) : List (String × Json) :=
  (event.params.getD .empty).entries.flatMap fun entry => entry.2.requests

/-- The requests that running the rule makes itself, if it evaluates all its conditions. -/
def Engine.requests (e : Engine) (rule : Rule) : List (String × Json) :=
  (e.expand [] rule.conditions).requests ++
    if e.policy.replaceFactsInEventParams then rule.event.requests else []

/-- All these requests are in `K`. -/
def Covers (K : String → Json → Prop) (requests : List (String × Json)) : Prop :=
  ∀ request ∈ requests, K request.1 request.2

/-- The provider answers each request of `K` at once and always the same, and knows one priority of
each fact. -/
structure Provider.Prompt (p : Provider σ) (I : σ → Prop) (K : String → Json → Prop) : Prop where
  factValue : ∀ {id params}, K id params → ∀ path,
    Determined I (fun _ => True) (p.factValue id params path)
  value : ∀ {v}, Covers K v.requests → Determined I (fun _ => True) (p.value v)
  factPriority_eq : ∀ {s s'}, I s → I s' → p.factPriority s = p.factPriority s'

theorem Provider.prompt_ofTable (facts : Table Json) :
    (Provider.ofTable (σ := σ) facts).Prompt I K := by
  have hfact (id : String) (params : Json) (path : Option String) :
      Determined I (fun _ => True) ((Provider.ofTable facts).factValue id params path) := by
    simp only [Provider.ofTable]
    cases facts.get? id with
    | some v => exact .pure trivial
    | none => exact determined_fail _
  refine ⟨fun {id params} _ path => hfact id params path, fun {v} _ => ?_, fun _ _ => rfl⟩
  cases hreference : FactReference.ofJson? v with
  | some reference =>
    simpa only [Provider.ofTable, hreference] using
      hfact reference.id reference.params reference.path
  | none =>
    simp only [Provider.ofTable, hreference]
    exact .pure trivial

namespace Slot

/-- A task that waits is determined. -/
def Determined (I : σ → Prop) : Slot σ α → Prop
  | waiting task => Action.Determined I (fun _ => True) task.run
  | settled _ _ => True

theorem Determined.advance {slot : Slot σ α} (h : slot.Determined I) (priority : Int64) :
    Action.Determined I (Slot.Determined I) (slot.advance priority) := by
  cases slot with
  | settled verdict a => exact .pure trivial
  | waiting task =>
    rw [Slot.advance]
    split
    · exact Action.Determined.bind h fun v _ => .pure trivial
    · exact .pure h

end Slot

namespace Schedule

theorem determined_rounds (neutral : Bool) (ps : List Int64) {slots : List (Slot σ α)}
    (h : ∀ slot ∈ slots, slot.Determined I) :
    Determined I (fun _ => True) (rounds neutral ps slots) := by
  induction ps generalizing slots with
  | nil => exact .pure trivial
  | cons p ps ih =>
    refine (Determined.together _ fun slot hslot => (h slot hslot).advance p).bind ?_
    intro slots' h'
    split
    · exact .pure trivial
    · exact ih h'

theorem determined_run (neutral : Bool) {tasks : List (Task σ α)}
    (h : ∀ task ∈ tasks, Determined I (fun _ => True) task.run) :
    Determined I (fun _ => True) (run neutral tasks) := by
  refine (determined_rounds neutral (priorities tasks) fun slot hslot => ?_).bind fun _ _ =>
    .pure trivial
  obtain ⟨task, htask, rfl⟩ := List.mem_map.1 hslot
  exact h task htask

end Schedule

namespace World
variable {r : Registry} {x : Action σ α} {P : α → Prop}

theorem atOnce_onFacts {w : World σ} {s : σ} {outcome : Except Fault α}
    (h : x.atOnce w.facts = some (outcome, s)) :
    (onFacts x).atOnce w = some (outcome, { w with facts := s }) := by
  apply atOnce_onPart _ _ _ h
  · exact fun _ _ => rfl
  · exact fun _ _ _ => rfl
  · exact fun _ => rfl

theorem determined_onFacts (h : Determined I P x) : Determined (Extends r I) P (onFacts x) := by
  obtain ⟨outcome, hends, houtcome⟩ := h
  refine ⟨outcome, fun w hw => ?_, houtcome⟩
  obtain ⟨s, hrun, hs⟩ := hends w.facts hw.facts
  exact ⟨{ w with facts := s }, atOnce_onFacts hrun, hw.coherent, hw.decorators_eq, hs⟩

theorem determined_operator (name : String) :
    Determined (Extends r I) (fun _ => True) (operator name) := by
  have hends : Ends (Extends r I) (r.resolve name).1 (operator name) := by
    intro w hw
    refine ⟨{ w with operators := (w.operators.resolve name).2 }, ?_, hw.resolve_snd name⟩
    rw [← hw.resolve_fst]
    rfl
  exact hends.determined

end World

variable {r : Registry}

theorem Condition.Leaf.determined_observe (hp : p.Prompt I K) {l : Leaf}
    (h : Covers K l.comparison.requests) :
    Determined (World.Extends r I) (fun _ => True) (l.observe p) := by
  have hfact := hp.factValue (h _ List.mem_cons_self) l.path
  have hvalue := hp.value fun request hmem => h request (List.mem_cons_of_mem _ hmem)
  refine (World.determined_operator l.operator).bind fun o _ => ?_
  exact (World.determined_onFacts (hvalue.pair hfact)).bind fun seen _ => .pure trivial

theorem Provider.Prompt.effectivePriority_eq (hp : p.Prompt I K) {s s' : σ} (hs : I s) (hs' : I s')
    (c : Condition) : c.effectivePriority p s = c.effectivePriority p s' := by
  cases c with
  | leaf l => rw [effectivePriority, effectivePriority, hp.factPriority_eq hs hs']
  | _ => rfl

namespace Engine

theorem determined_evaluate (hp : p.Prompt I K) (e : Engine) (chain : List String) (c : Condition)
    (h : Covers K (e.expand chain c).requests) :
    Determined (World.Extends r I) (fun _ => True) (e.evaluate p chain c) := by
  induction chain, c using Engine.evaluate.induct e with
  | case1 chain q heading cs ih =>
    rw [expand, Formula.requests] at h
    rw [evaluate]
    refine Determined.state (fun w w' hw hw' => ?_) fun w _ => ?_
    · simp only [hp.effectivePriority_eq hw.facts hw'.facts]
    · refine (Schedule.determined_run q.neutral fun task htask => ?_).bind fun _ _ => .pure trivial
      obtain ⟨c, hc, rfl⟩ := List.mem_map.1 htask
      exact ih c hc fun request hmem =>
        h request (Formula.requests_subset_requestsAll (List.mem_map_of_mem hc) hmem)
  | case2 chain heading c ih =>
    rw [expand, Formula.requests] at h
    rw [evaluate]
    exact (ih h).bind fun _ _ => .pure trivial
  | case3 chain l =>
    rw [expand, Formula.requests] at h
    rw [evaluate]
    exact (Leaf.determined_observe hp h).bind fun _ _ => .pure trivial
  | case4 chain ref hmem =>
    rw [evaluate_of_mem hmem]
    exact determined_fail _
  | case5 chain ref hnew stored hget ih =>
    rw [expand_of_get? hnew hget] at h
    rw [expand_realize] at ih
    rw [evaluate_of_get? hnew hget]
    exact ih h
  | case6 chain ref hnew hget hallow =>
    rw [evaluate_of_get?_eq_none hnew hget, if_pos hallow]
    exact .pure trivial
  | case7 chain ref hnew hget hallow =>
    rw [evaluate_of_get?_eq_none hnew hget, if_neg hallow]
    exact determined_fail _

end Engine

theorem Report.determined_resolveParams (hp : p.Prompt I K) {report : Report}
    (h : Covers K report.event.requests) :
    Determined I (fun _ => True) (report.resolveParams p) := by
  unfold resolveParams
  cases hparams : report.event.params with
  | none => exact .pure trivial
  | some params =>
    have hentries : ∀ entry ∈ params.entries, Determined I (fun _ => True)
        (do return (entry.1, ← p.value entry.2) : Action σ (String × Json)) := by
      intro entry hentry
      have hvalue : Covers K entry.2.requests := fun request hmem => by
        refine h request (List.mem_flatMap.2 ⟨entry, ?_, hmem⟩)
        rwa [hparams]
      exact (hp.value hvalue).bind fun _ _ => .pure trivial
    exact (Determined.together params.size hentries).bind fun _ _ => .pure trivial

namespace Engine

theorem determined_execute (hp : p.Prompt I K) (e : Engine) {rule : Rule}
    (h : Covers K (e.requests rule)) :
    Determined (World.Extends r I) (fun _ => True) (e.execute p rule) := by
  have hconditions : Covers K (e.expand [] rule.conditions).requests :=
    fun request hmem => h request (List.mem_append_left _ hmem)
  rw [execute_eq]
  refine (determined_evaluate hp e [] rule.conditions hconditions).bind fun v _ => ?_
  split
  · rename_i hreplace
    rw [requests, if_pos hreplace] at h
    exact World.determined_onFacts <| Report.determined_resolveParams hp
      fun request hmem => h request (List.mem_append_right _ hmem)
  · exact .pure trivial

/-- Each of several rules ends as it does alone in any of the states, and the first fault is that
of all. -/
theorem executeAll_eq_mapM (hp : p.Prompt I K) (e : Engine) {rules : List Rule}
    (h : ∀ rule ∈ rules, Covers K (e.requests rule)) {w w' : World σ} (hw : w.Extends r I)
    (hw' : w'.Extends r I) :
    ((e.executeAll p rules).run w).1 =
      (rules.mergeSort fun rule rule' => decide (rule'.priority ≤ rule.priority)).mapM
        fun rule => ((e.execute p rule).run w').1 := by
  have heach (rule : Rule) (hrule : rule ∈ rules.mergeSort fun rule rule' =>
      decide (rule'.priority ≤ rule.priority)) :
      Ends (World.Extends r I) ((e.execute p rule).run w').1 (e.execute p rule) :=
    (determined_execute hp e (h rule (List.mem_mergeSort.1 hrule))).ends hw'
  exact ((Ends.forEach heach).run hw).1

end Engine
end Verdict
