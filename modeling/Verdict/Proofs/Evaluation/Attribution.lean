import Verdict.Proofs.Evaluation.Circles

/-!
# Where a fault of a rule comes from

What a rule fails with tells a place: a comparison or a reference of the rule itself, or of a
stored condition that the rule leads to. No run changes what a name resolves to, so an operator
that was unknown is so afterwards.
-/
namespace Verdict
open Verdict.Action Verdict.Condition

namespace Condition

mutual

/-- The operators that the comparisons of the condition name, those in stored conditions left
out. -/
def operators : Condition → List String
  | group _ _ cs => operatorsAll cs
  | not _ c => operators c
  | reference _ => []
  | leaf l => [l.operator]

def operatorsAll : List Condition → List String
  | [] => []
  | c :: cs => operators c ++ operatorsAll cs

end

theorem operators_subset_operatorsAll {c : Condition} {cs : List Condition} (h : c ∈ cs) :
    c.operators ⊆ operatorsAll cs := by
  induction cs with
  | nil => cases h
  | cons c' cs ih =>
    rw [operatorsAll]
    rcases List.mem_cons.1 h with rfl | h
    · exact List.subset_append_left _ _
    · exact List.Subset.trans (ih h) (List.subset_append_right _ _)

mutual

theorem operators_clear : ∀ c : Condition, c.clear.operators = c.operators
  | group _ _ cs => by rw [clear, operators, operators, operatorsAll_clearAll cs]
  | not _ c => by rw [clear, operators, operators, operators_clear c]
  | reference _ => by rw [clear]
  | leaf _ => by rw [clear, operators, operators, Leaf.clear]

theorem operatorsAll_clearAll :
    ∀ cs : List Condition, operatorsAll (clearAll cs) = operatorsAll cs
  | [] => by rw [clearAll]
  | c :: cs => by
    rw [clearAll, operatorsAll, operatorsAll, operators_clear c, operatorsAll_clearAll cs]

end

theorem operators_inherit (c : Condition) (r : Reference) :
    (c.inherit r).operators = c.operators := by
  cases c <;> rw [inherit, operators, operators]

end Condition

namespace Engine
variable {e : Engine} {c c' : Condition} {chain : List String} {n : Nat} {name : String}

theorem operators_realize (stored : Condition) (r : Reference) :
    (realize stored r).operators = stored.operators := by
  rw [realize, operators_inherit, operators_clear]

/-- The second is the condition itself, or a stored one that it leads to. -/
def Involves (e : Engine) (c c' : Condition) : Prop :=
  c' = c ∨ ∃ name, e.LeadsTo c name ∧ e.conditions.get? name = some c'

/-- The condition of a call is part of one that is involved. -/
structure Part (e : Engine) (c whole part : Condition) : Prop where
  involved : e.Involves c whole
  references : part.references ⊆ whole.references
  operators : part.operators ⊆ whole.operators

theorem Reaches.part (h : e.Reaches c n chain c') : ∃ whole, e.Part c whole c' := by
  induction h with
  | start => exact ⟨c, .inl rfl, List.Subset.refl _, List.Subset.refl _⟩
  | call hbefore hcall ih =>
    obtain ⟨whole, hwhole⟩ := ih
    cases hcall with
    | member hc =>
      exact ⟨whole, hwhole.involved,
        List.Subset.trans (references_subset_referencesAll hc) hwhole.references,
        List.Subset.trans (operators_subset_operatorsAll hc) hwhole.operators⟩
    | negated => exact ⟨whole, hwhole.involved, hwhole.references, hwhole.operators⟩
    | @expansion r stored _ hget =>
      have hleads : e.LeadsTo c r.condition := (hbefore.led (List.mem_singleton.2 rfl)).leadsTo
      refine ⟨stored, .inr ⟨r.condition, hleads, hget⟩, ?_, ?_⟩
      · rw [references_realize]
        exact List.Subset.refl _
      · rw [operators_realize]
        exact List.Subset.refl _

/-- What a fault tells of the condition that was run, and of the operators before and after. -/
inductive Attributed (e : Engine) (c : Condition) (before after : Registry) : Fault → Prop
  | undefinedFact (id : String) : Attributed e c before after (.undefinedFact id)
  | unknownOperator {c' : Condition} {name : String} (hc : e.Involves c c')
      (hname : name ∈ c'.operators)
      (hbefore : (before.resolve name).1 = .error (.unknownOperator name))
      (hafter : (after.resolve name).1 = .error (.unknownOperator name)) :
      Attributed e c before after (.unknownOperator name)
  | unknownDecorator {c' : Condition} {part name : String} (hc : e.Involves c c')
      (hname : name ∈ c'.operators)
      (hbefore : (before.resolve name).1 = .error (.unknownDecorator part name))
      (hafter : (after.resolve name).1 = .error (.unknownDecorator part name)) :
      Attributed e c before after (.unknownDecorator part name)
  | undefinedCondition {c' : Condition} {name : String} (hc : e.Involves c c')
      (hname : name ∈ c'.references) (hget : e.conditions.get? name = none)
      (hallow : e.policy.allowUndefinedConditions = false) :
      Attributed e c before after (.undefinedCondition name)
  | circularReference {names : List String} (hcircle : e.Circle c names) :
      Attributed e c before after (.circularReference names)

theorem Blamed.attributed {r after : Registry} {fault : Fault}
    (h : e.Blamed r (fun fault => ∃ id, fault = .undefinedFact id) c fault)
    (hafter : ∀ name, (after.resolve name).1 = (r.resolve name).1) :
    e.Attributed c r after fault := by
  cases h with
  | provider hfault =>
    obtain ⟨id, rfl⟩ := hfault
    exact .undefinedFact id
  | @operator n chain l _ hreaches hresolve =>
    obtain ⟨whole, hwhole⟩ := hreaches.part
    have hname : l.operator ∈ whole.operators := hwhole.operators (List.mem_singleton.2 rfl)
    have hagain := (hafter l.operator).trans hresolve
    obtain rfl | ⟨part, rfl⟩ := Registry.unknown_of_resolve hresolve
    · exact .unknownOperator hwhole.involved hname hresolve hagain
    · exact .unknownDecorator hwhole.involved hname hresolve hagain
  | circular hreaches hmem => exact .circularReference (hreaches.circle hmem)
  | undefined hreaches hget hallow =>
    obtain ⟨whole, hwhole⟩ := hreaches.part
    exact .undefinedCondition hwhole.involved (hwhole.references (List.mem_singleton.2 rfl)) hget
      (Bool.eq_false_iff.2 hallow)

variable {σ : Type} {I : σ → Prop} {p : Provider σ}

/-- With a provider that fails for undefined facts only, a rule fails only with a fault that tells
where it comes from: an undefined fact, an operator that a comparison of the rule or of a stored
condition names and that resolves neither before nor after, a name that they refer to and that is
not stored, or a circle of references. So the other faults of an evaluation do not come up, and
neither does one of a definition. -/
theorem execute_attributed (defaults : Bool) (calls : List Registry.Call)
    (hp : ∀ inquiry, Ensures I (fun _ => True) (fun fault => ∃ id, fault = .undefinedFact id)
      (p.inquire inquiry))
    (e : Engine) (rule : Rule) (facts : σ) (hfacts : I facts) {fault : Fault} {w : World σ}
    (h : (e.execute p rule).run ⟨Registry.run defaults calls, facts⟩ = (.error fault, w)) :
    e.Attributed rule.conditions (Registry.run defaults calls) w.operators fault ∧
      fault.isConfiguration = false ∧ (∀ connective, fault ≠ .groupNotEvaluable connective) ∧
      (∀ name, fault ≠ .unresolvedReference name) ∧ fault ≠ .resultAlreadySet := by
  have hw : World.Extends (Registry.run defaults calls) I
      (⟨Registry.run defaults calls, facts⟩ : World σ) :=
    ⟨(Registry.wellNamed_run defaults calls).coherent, rfl, hfacts⟩
  obtain ⟨hmeets, hend⟩ := (ensures_execute_blamed hp e rule).run hw
  rw [h] at hmeets hend
  have hattributed := Blamed.attributed hmeets hend.resolve_fst
  refine ⟨hattributed, ?_⟩
  cases hattributed <;> exact ⟨rfl, nofun, nofun, nofun⟩

/-- A rule that refers to the adults fails with the operator that their condition names. -/
theorem execute_attributed_adult :
    let p : Provider Unit := .ofTable .empty
    let adult : Leaf := .ofComparison "age" "olderThan" (.ofInt64 18)
    let e : Engine := ⟨.ofList [("adult", .leaf adult)], {}⟩
    let rule : Rule := ⟨none, 1, .reference ⟨"adult", none, none, .empty⟩, ⟨"admit", none⟩⟩
    let operators := Registry.run true []
    let fault : Fault := .unknownOperator "olderThan"
    ∃ w, (e.execute p rule).run ⟨operators, ()⟩ = (.error fault, w) ∧
      e.Attributed rule.conditions operators w.operators fault := by
  intro p adult e rule operators fault
  have hp : ∀ inquiry, Ensures (fun _ => True) (fun _ => True)
      (fun fault => ∃ id, fault = .undefinedFact id) (p.inquire inquiry) :=
    Provider.ensures_inquire (fun _ => rfl) fun id _ _ => ⟨id, rfl⟩
  have hresolve : (operators.resolve "olderThan").1 = .error fault := by
    have hget : operators.operators.get? "olderThan" = none := rfl
    rw [Registry.resolve, hget, Registry.segments_eq_singleton (by decide)]
    rfl
  have hoperator : Ensures (World.Extends operators fun _ => True) (fun _ => False) (· = fault)
      (World.operator (σ := Unit) "olderThan") :=
    (World.yields_operator "olderThan").mono (fun _ h => by cases hresolve.symm.trans h)
      fun _ h => (Except.error.inj (hresolve.symm.trans h)).symm
  have hevaluate : Ensures (World.Extends operators fun _ => True) (fun _ => False) (· = fault)
      (e.evaluate p [] rule.conditions) := by
    have hget : e.conditions.get? "adult" = some (.leaf adult) := rfl
    rw [evaluate_of_get? List.not_mem_nil hget, realize, clear, inherit, evaluate]
    refine Ensures.bind (P := fun _ => False) ?_ fun _ h => h.elim
    exact hoperator.bind fun _ h => h.elim
  have hexecute : Ensures (World.Extends operators fun _ => True) (fun _ => False) (· = fault)
      (e.execute p rule) := hevaluate.bind fun _ h => h.elim
  have hmeets := (hexecute.run (s := ⟨operators, ()⟩)
    ⟨(Registry.wellNamed_run true []).coherent, rfl, trivial⟩).1
  cases hrun : (e.execute p rule).run ⟨operators, ()⟩ with
  | mk outcome w =>
    rw [hrun] at hmeets
    cases outcome with
    | ok report => exact hmeets.elim
    | error fault' =>
      obtain rfl : fault' = fault := hmeets
      exact ⟨w, rfl, (execute_attributed true [] hp e rule () trivial hrun).1⟩

end Engine
end Verdict
