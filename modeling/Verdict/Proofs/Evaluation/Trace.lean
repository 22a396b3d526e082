import Verdict.Proofs.Evaluation.Followed
import Verdict.Proofs.Evaluation.Inquiries

/-!
# The calls of an evaluation

A traced evaluation writes down each call before it makes it, beside the state of the provider.
Apart from what it wrote down it ends as the evaluation that is traced. A call for a condition
inside itself never gives a verdict, and neither does any evaluation in which there is such a call.
-/
namespace Verdict
open Verdict.Action Verdict.Condition

variable {σ τ α : Type}

/-- The provider, where its state is the first of two parts. -/
def Provider.beside (p : Provider σ) (τ : Type) : Provider (σ × τ) where
  factValue id params path := (p.factValue id params path).onPart Prod.fst fun s t => (s, t.2)
  value v := (p.value v).onPart Prod.fst fun s t => (s, t.2)
  factPriority s := p.factPriority s.1

/-- A condition to be evaluated, after the names that are being expanded around it. -/
abbrev Call := List String × Condition

/-- Does the call ask for a condition that is being expanded around it? -/
def Call.isCircular : Call → Bool
  | (chain, .reference r) => chain.contains r.condition
  | _ => false

def World.noteCall (call : Call) (w : World (σ × List Call)) : World (σ × List Call) :=
  { w with facts := (w.facts.1, w.facts.2 ++ [call]) }

namespace Engine

/-- The evaluation that writes down each call which lies in fewer than so many others. -/
def traced (e : Engine) (p : Provider σ) : Nat → Evaluator (σ × List Call)
  | 0 => e.evaluate (p.beside (List Call))
  | n + 1 => fun chain c => do
    .modify (World.noteCall (chain, c))
    e.evaluateBy (p.beside (List Call)) (traced e p n) chain c

/-- All calls that evaluating the condition makes from the world. -/
def trace (e : Engine) (p : Provider σ) (c : Condition) (w : World σ) : List Call :=
  ((e.traced p (e.callDepth [] c) [] c).run ⟨w.operators, (w.facts, [])⟩).2.facts.2

end Engine

/-! What is written down changes nothing else. -/

/-- The second part of the state is left out. -/
def Likeness.first (σ τ : Type) : Likeness (σ × τ) σ where
  within _ := True
  image := Prod.fst
  lost _ := False
  idle _ := False
  within_idle _ _ := trivial
  image_idle h _ := h.elim

/-- What was written down is left out, and writing down is idle. -/
def Likeness.untraced (σ : Type) : Likeness (World (σ × List Call)) (World σ) where
  within _ := True
  image w := ⟨w.operators, w.facts.1⟩
  lost _ := False
  idle g := ∃ call, g = World.noteCall call
  within_idle _ _ := trivial
  image_idle := by
    rintro _ w ⟨call, rfl⟩ -
    rfl

theorem Likeness.lifts_untraced :
    (Likeness.first σ (List Call)).Lifts (Likeness.untraced σ) where
  within_iff _ := Iff.rfl
  image_eq _ := rfl
  lost_eq := rfl
  not_idle _ h := h

theorem Likeness.allOrNone_first : (Likeness.first σ τ).AllOrNone := fun _ _ h => h

theorem Action.follows_onPart_fst (x : Action σ α) :
    Follows (Likeness.first σ τ) Eq (x.onPart Prod.fst fun s t => (s, t.2)) x := by
  induction x with
  | done r => exact .done (.refl r)
  | read next ih => exact .read fun s _ => ih s.1
  | write s next ih => exact .look fun t _ => .write trivial rfl ih
  | wait ready next ih => exact .wait (fun _ _ => rfl) ih

theorem Provider.follows_beside (p : Provider σ) :
    (p.beside τ).Follows (Likeness.first σ τ) p where
  factValue id params path := follows_onPart_fst (p.factValue id params path)
  value v := follows_onPart_fst (p.value v)
  factPriority_eq _ := rfl

namespace Engine
variable {e : Engine} {p : Provider σ}

theorem Follows.refl {L : Likeness σ τ} (e : Engine) : e.Follows L e := ⟨rfl, rfl, .inl rfl⟩

theorem follows_traced (n : Nat) (chain : List String) (c : Condition) :
    Action.Follows (Likeness.untraced σ) Eq (e.traced p n chain c) (e.evaluate p chain c) := by
  induction n generalizing chain c with
  | zero =>
    exact follows_evaluate Likeness.lifts_untraced Likeness.allOrNone_first p.follows_beside
      (.refl e) chain c
  | succ n ih =>
    rw [← evaluateBy_evaluate]
    exact .idle ⟨_, rfl⟩ (follows_evaluateBy Likeness.lifts_untraced Likeness.allOrNone_first
      p.follows_beside (.refl e) fun chain' c' _ => ih chain' c')

/-- A traced evaluation ends as the evaluation does, and in the same world but for what it wrote
down. -/
theorem run_traced (e : Engine) (p : Provider σ) (n : Nat) (chain : List String) (c : Condition)
    (w : World (σ × List Call)) :
    let traced := (e.traced p n chain c).run w
    (e.evaluate p chain c).run ⟨w.operators, w.facts.1⟩ =
      (traced.1, ⟨traced.2.operators, traced.2.facts.1⟩) :=
  (follows_traced n chain c).run_eq trivial fun _ h => h

/-! A circular call gives no verdict. -/

/-- How many circular calls were written down. -/
def circularCalls (s : σ × List Call) : Nat := s.2.countP Call.isCircular

/-- The action writes down no circular call, or ends with a fault. -/
abbrev Uncircular (x : Action (World (σ × List Call)) α) : Prop :=
  World.Spends (fun _ => True) circularCalls (fun _ d => d = 0) x

theorem metered_beside (p : Provider σ) :
    (p.beside (List Call)).Metered (fun _ => True) circularCalls fun _ => 0 := by
  have hinquire (inquiry : Inquiry) : (p.beside (List Call)).inquire inquiry =
      (p.inquire inquiry).onPart Prod.fst fun s t => (s, t.2) := by
    cases inquiry <;> rfl
  intro inquiry s _
  rw [hinquire]
  exact (ensures_true _).costs_onPart (I := fun _ => True) trivial (fun _ _ => rfl) fun _ _ => rfl

theorem uncircular_evaluateBy {inner : Evaluator (σ × List Call)} {chain : List String}
    {c : Condition} (h : ∀ chain' c', e.Calls chain c chain' c' → Uncircular (inner chain' c')) :
    Uncircular (e.evaluateBy (p.beside (List Call)) inner chain c) := by
  cases c with
  | group q heading cs =>
    refine CostsFrom.state fun w hw => ?_
    have hrun (i : Nat) (t : Task (World (σ × List Call)) Condition)
        (ht : (cs.map fun c => (⟨effectivePriority (p.beside (List Call)) w.facts c, c,
          inner chain c⟩ : Task (World (σ × List Call)) Condition))[i]? = some t) :
        Uncircular t.run := by
      rw [List.getElem?_map, Option.map_eq_some_iff] at ht
      obtain ⟨c, hc, rfl⟩ := ht
      exact h chain c (.member (List.mem_of_getElem? hc))
    refine (Schedule.costs_run q.neutral hrun).bind ?_
    rintro v _ ⟨slots, -, -, hlength, bills, rfl, hspent⟩
    refine costsFrom_pure ((total_congr fun i hi => ?_).trans (total_zero _))
    have hi' : i < slots.length := hlength.symm ▸ hi
    obtain ⟨-, hd⟩ | ⟨_, _, _, -, -, hd⟩ :=
      hspent i _ (List.getElem?_eq_getElem hi') _ (List.getElem?_eq_getElem hi)
    · exact hd
    · exact hd
  | not heading c => exact (h chain c .negated).bind fun v d hd => costsFrom_pure hd
  | leaf l =>
    refine (Leaf.spends_observe (metered_beside p) l).bind fun o d hd => costsFrom_pure ?_
    simpa [Leaf.costs, Inquiry.costs] using hd
  | reference r =>
    simp only [evaluateBy]
    by_cases hmem : r.condition ∈ chain
    · rw [if_pos hmem]
      exact costsFrom_fail _
    · rw [if_neg hmem]
      cases hget : e.conditions.get? r.condition with
      | some stored => exact h _ _ (.expansion hmem hget)
      | none =>
        simp only
        split
        · exact costsFrom_pure rfl
        · exact costsFrom_fail _

theorem uncircular_traced (n : Nat) (chain : List String) (c : Condition) :
    Uncircular (e.traced p n chain c) := by
  induction n generalizing chain c with
  | zero =>
    rw [traced]
    induction chain, c using calls_induction e with
    | call chain c ih =>
      rw [← evaluateBy_evaluate]
      exact uncircular_evaluateBy ih
  | succ n ih =>
    have hcalls : Uncircular (e.evaluateBy (p.beside (List Call)) (e.traced p n) chain c) :=
      uncircular_evaluateBy fun chain' c' _ => ih chain' c'
    intro w hw
    by_cases hcircular : Call.isCircular (chain, c)
    · -- the call is for a reference that fails
      cases c with
      | reference r =>
        have hmem : r.condition ∈ chain := by simpa [Call.isCircular] using hcircular
        refine ⟨trivial, 1, ?_, ?_⟩
        · simp [World.noteCall, circularCalls, hcircular]
        · change Costs _ _ _ (e.evaluateBy (p.beside (List Call)) (e.traced p n) chain
            (.reference r)) _ _
          rw [evaluateBy, if_pos hmem]
          exact costsFrom_fail _ _ trivial
      | _ => cases hcircular
    · refine ⟨trivial, 0, ?_, hcalls _ trivial⟩
      simp [World.noteCall, circularCalls, hcircular]

/-- An evaluation that makes a circular call ends with a fault. -/
theorem exists_fault_of_circular {c : Condition} {w : World σ} {call : Call}
    (h : call ∈ e.trace p c w) (hcircular : call.isCircular) :
    ∃ fault, ((e.evaluate p [] c).run w).1 = .error fault := by
  have hrun := run_traced e p (e.callDepth [] c) [] c ⟨w.operators, (w.facts, [])⟩
  cases hends : ((e.evaluate p [] c).run w).1 with
  | error fault => exact ⟨fault, rfl⟩
  | ok v =>
    let traced := (e.traced p (e.callDepth [] c) [] c).run ⟨w.operators, (w.facts, [])⟩
    have houtcome : traced.1 = .ok v := (congrArg Prod.fst hrun).symm.trans hends
    have hok : traced = (.ok v, traced.2) := Prod.ext houtcome rfl
    obtain ⟨total, rfl, hcount⟩ := (uncircular_traced _ [] c _ trivial).run trivial hok
    have hnone : traced.2.facts.2.countP Call.isCircular = 0 := hcount
    exact absurd hcircular (List.countP_eq_zero.1 hnone call h)

end Engine
end Verdict
