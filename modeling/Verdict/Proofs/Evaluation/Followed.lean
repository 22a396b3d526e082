import Verdict.Proofs.Action.Convoy
import Verdict.Proofs.Evaluation.Depth

/-!
# Evaluations that follow others

If the answers of one provider follow those of another, evaluations with the one follow evaluations
with the other. The engines may differ in what they make of a condition that is not there, if any
fault loses the evaluation that is followed.
-/
namespace Verdict
open Verdict.Action Verdict.Condition

variable {σ τ α β : Type} {L : Likeness σ τ} {W : Likeness (World σ) (World τ)} {R : α → β → Prop}

/-- The worlds correspond as their facts do, and have the same operators. No step on the facts is
idle, though others in the world may be. -/
structure Likeness.Lifts (L : Likeness σ τ) (W : Likeness (World σ) (World τ)) : Prop where
  within_iff : ∀ w, W.within w ↔ L.within w.facts
  image_eq : ∀ w, W.image w = ⟨w.operators, L.image w.facts⟩
  lost_eq : W.lost = L.lost
  not_idle : ∀ g, ¬ L.idle g

/-- Worlds that correspond as their facts do. -/
def Likeness.world (L : Likeness σ τ) : Likeness (World σ) (World τ) where
  within w := L.within w.facts
  image w := ⟨w.operators, L.image w.facts⟩
  lost := L.lost
  idle _ := False
  within_idle h _ := h.elim
  image_idle h _ := h.elim

theorem Likeness.lifts_world (hidle : ∀ g, ¬ L.idle g) : L.Lifts L.world :=
  ⟨fun _ => Iff.rfl, fun _ => rfl, rfl, hidle⟩

theorem Likeness.Lifts.allOrNone (hW : L.Lifts W) (hall : L.AllOrNone) : W.AllOrNone := by
  intro e e'
  rw [hW.lost_eq]
  exact hall e e'

namespace World

theorem follows_onFacts {x : Action σ α} {y : Action τ β} (hW : L.Lifts W)
    (h : Follows L R x y) : Follows W R (onFacts x) (onFacts y) := by
  induction h with
  | done h => exact .done h
  | @read next next' _ ih =>
    refine .read fun w hw => ?_
    rw [hW.image_eq]
    exact ih w.facts ((hW.within_iff w).1 hw)
  | write hs ht _ ih =>
    refine .read fun w _ => .write ((hW.within_iff _).2 hs) ?_ ih
    rw [hW.image_eq, hW.image_eq, ht]
  | wait hready _ ih =>
    refine .wait (fun w hw => ?_) ih
    rw [hW.image_eq]
    exact hready w.facts ((hW.within_iff w).1 hw)
  | look _ ih => exact .look fun w hw => ih w.facts ((hW.within_iff w).1 hw)
  | idle hg _ _ => exact absurd hg (hW.not_idle _)
  | lost he h =>
    rw [← hW.lost_eq] at he h
    exact .lost he (h.onPart (fun w => (hW.within_iff w).1)
      fun s w _ hs => (hW.within_iff { w with facts := s }).2 hs)

theorem follows_operator (hW : L.Lifts W) (name : String) :
    Follows W Eq (operator (σ := σ) name) (operator (σ := τ) name) := by
  refine .read fun w hw => ?_
  rw [hW.image_eq]
  refine .write ((hW.within_iff _).2 ((hW.within_iff w).1 hw)) ?_ (.done (.refl _))
  rw [hW.image_eq]

end World

/-- The answers of the second provider follow those of the first. -/
structure Provider.Follows (L : Likeness σ τ) (p : Provider σ) (p' : Provider τ) : Prop where
  factValue : ∀ id params path,
    Action.Follows L Eq (p.factValue id params path) (p'.factValue id params path)
  value : ∀ v, Action.Follows L Eq (p.value v) (p'.value v)
  factPriority_eq : ∀ {s}, L.within s → p.factPriority s = p'.factPriority (L.image s)

/-- The second engine does what the first does. Only where any fault loses the first, it may accept
conditions that are not there though the first does not. -/
structure Engine.Follows (L : Likeness σ τ) (e e' : Engine) : Prop where
  conditions_eq : e.conditions = e'.conditions
  replaceFactsInEventParams_eq :
    e.policy.replaceFactsInEventParams = e'.policy.replaceFactsInEventParams
  allowUndefinedConditions :
    e.policy.allowUndefinedConditions = e'.policy.allowUndefinedConditions ∨
      (e.policy.allowUndefinedConditions = false ∧ ∀ fault, L.lost fault)

variable {p : Provider σ} {p' : Provider τ} {e e' : Engine}

theorem Provider.Follows.effectivePriority_eq (hp : p.Follows L p') {s : σ} (hs : L.within s)
    (c : Condition) : effectivePriority p s c = effectivePriority p' (L.image s) c := by
  cases c with
  | leaf l => rw [effectivePriority, effectivePriority, hp.factPriority_eq hs]
  | _ => rfl

theorem Condition.Leaf.follows_observe (hW : L.Lifts W) (hall : L.AllOrNone)
    (hp : p.Follows L p') (l : Leaf) : Follows W Eq (l.observe p) (l.observe p') := by
  refine (World.follows_operator hW l.operator).bind ?_
  rintro o _ rfl
  have hseen := (hp.value l.value).pair hall (hp.factValue l.fact (l.params.getD .null) l.path)
  refine (World.follows_onFacts hW hseen).bind ?_
  rintro ⟨value, fact⟩ ⟨value', fact'⟩ ⟨rfl, rfl⟩
  exact .pure rfl

namespace Engine

theorem follows_evaluateBy (hW : L.Lifts W) (hall : L.AllOrNone) (hp : p.Follows L p')
    (he : e.Follows L e') {inner : Evaluator σ} {inner' : Evaluator τ} {chain : List String}
    {c : Condition}
    (h : ∀ chain' c', e.Calls chain c chain' c' →
      Action.Follows W Eq (inner chain' c') (inner' chain' c')) :
    Action.Follows W Eq (e.evaluateBy p inner chain c) (e'.evaluateBy p' inner' chain c) := by
  cases c with
  | group q heading cs =>
    refine Follows.state.bind ?_
    rintro w _ ⟨hw, rfl⟩
    rw [hW.image_eq]
    have htasks : List.Forall₂
        (fun task task' => Slot.Follows W Eq (.waiting task) (.waiting task'))
        (cs.map fun c => ⟨effectivePriority p w.facts c, c, inner chain c⟩)
        (cs.map fun c => ⟨effectivePriority p' (L.image w.facts) c, c, inner' chain c⟩) := by
      rw [List.forall₂_map_left_iff, List.forall₂_map_right_iff, List.forall₂_same]
      intro c hc
      refine .waiting (hp.effectivePriority_eq ((hW.within_iff w).1 hw) c) rfl ?_
      exact (h chain c (.member hc)).mono fun v v' hv => ⟨congrArg _ hv, congrArg _ hv⟩
    refine (Schedule.follows_run (hW.allOrNone hall) q.neutral htasks).bind ?_
    rintro ⟨verdict, cs⟩ ⟨verdict', cs'⟩ ⟨rfl, hcs⟩
    rw [List.forall₂_eq_eq_eq] at hcs
    obtain rfl : cs = cs' := hcs
    exact .pure rfl
  | not heading c =>
    refine (h chain c .negated).bind ?_
    rintro v _ rfl
    exact .pure rfl
  | leaf l =>
    refine (l.follows_observe hW hall hp).bind ?_
    rintro o _ rfl
    exact .pure rfl
  | reference r =>
    simp only [evaluateBy]
    by_cases hmem : r.condition ∈ chain
    · rw [if_pos hmem, if_pos hmem]
      exact .fail _
    · rw [if_neg hmem, if_neg hmem, ← he.conditions_eq]
      cases hget : e.conditions.get? r.condition with
      | some stored => exact h _ _ (.expansion hmem hget)
      | none =>
        rcases he.allowUndefinedConditions with hallow | ⟨hallow, hlost⟩
        · rw [hallow]
          exact .ite Iff.rfl (.pure rfl) (.fail _)
        · rw [if_neg (by simp [hallow])]
          rw [← hW.lost_eq] at hlost
          exact .lost (hlost (.undefinedCondition r.condition)) (hlost _)

theorem follows_evaluate (hW : L.Lifts W) (hall : L.AllOrNone) (hp : p.Follows L p')
    (he : e.Follows L e') (chain : List String) (c : Condition) :
    Action.Follows W Eq (e.evaluate p chain c) (e'.evaluate p' chain c) := by
  induction chain, c using calls_induction e with
  | call chain c ih =>
    rw [← evaluateBy_evaluate, ← evaluateBy_evaluate]
    exact follows_evaluateBy hW hall hp he ih

end Engine

theorem Report.follows_resolveParams (hall : L.AllOrNone) (hp : p.Follows L p') (report : Report) :
    Follows L Eq (report.resolveParams p) (report.resolveParams p') := by
  unfold resolveParams
  cases report.event.params with
  | none => exact .pure rfl
  | some params =>
    have hentries : List.Forall₂ (Follows L Eq)
        (params.entries.map fun entry => do return (entry.1, ← p.value entry.2))
        (params.entries.map fun entry => do return (entry.1, ← p'.value entry.2)) := by
      rw [List.forall₂_map_left_iff, List.forall₂_map_right_iff, List.forall₂_same]
      intro entry _
      refine (hp.value entry.2).bind ?_
      rintro v _ rfl
      exact .pure rfl
    refine (Follows.together hall hentries params.size).bind ?_
    intro resolved resolved' h
    rw [List.forall₂_eq_eq_eq] at h
    exact .pure (by rw [h])

theorem Engine.follows_execute (hW : L.Lifts W) (hall : L.AllOrNone) (hp : p.Follows L p')
    (he : e.Follows L e') (rule : Rule) :
    Action.Follows W Eq (e.execute p rule) (e'.execute p' rule) := by
  rw [execute_eq, execute_eq, he.replaceFactsInEventParams_eq]
  refine (follows_evaluate hW hall hp he [] rule.conditions).bind ?_
  rintro v _ rfl
  refine .ite Iff.rfl ?_ (.pure rfl)
  exact World.follows_onFacts hW (Report.follows_resolveParams hall hp (reported rule v))

end Verdict
