import Mathlib.Data.List.Permutation
import Verdict.Proofs.Condition.Records
import Verdict.Proofs.Evaluation.Determined
import Verdict.Proofs.Evaluation.Visits

/-!
# Results of earlier runs

A run forgets what is recorded in the stored conditions that it expands, but not what is recorded
in the rule itself. So what a rule carries from earlier runs has no part in the evaluation, and is
found again in the report on the comparisons that were not made.
-/
namespace Verdict
open Verdict.Action Verdict.Condition

/-- Changes the values of all entries. -/
def Table.map {α β : Type} (f : α → β) (t : Table α) : Table β :=
  ⟨t.entries.map fun e => (e.1, f e.2)⟩

theorem Table.get?_map {α β : Type} (f : α → β) (t : Table α) (k : String) :
    (t.map f).get? k = (t.get? k).map f := by
  obtain ⟨l⟩ := t
  induction l with
  | nil => rfl
  | cons e rest ih =>
    by_cases h : k = e.1
    · simp [Table.map, Table.get?, Table.lookup, h]
    · simpa [Table.map, Table.get?, Table.lookup, h] using ih

namespace Condition

theorem clear_inherit (c : Condition) (r : Reference) :
    (c.inherit r).clear = c.clear.inherit r := by
  cases c <;> rfl

theorem effectivePriority_clear {σ : Type} (p : Provider σ) (facts : σ) (c : Condition) :
    c.clear.effectivePriority p facts = c.effectivePriority p facts := by
  cases c <;> rfl

end Condition

namespace Engine
variable {σ : Type}

/-- The engine without what is recorded in its stored conditions. -/
def cleared (e : Engine) : Engine := { e with conditions := e.conditions.map clear }

theorem get?_cleared (e : Engine) (name : String) :
    e.cleared.conditions.get? name = (e.conditions.get? name).map clear :=
  Table.get?_map clear e.conditions name

theorem policy_cleared (e : Engine) : e.cleared.policy = e.policy := rfl

theorem clear_realize (stored : Condition) (r : Reference) :
    (realize stored r).clear = realize stored r := by
  rw [realize, clear_inherit, clear_clear]

theorem realize_clear (stored : Condition) (r : Reference) :
    realize stored.clear r = realize stored r := by
  rw [realize, realize, clear_clear]

/-- Results of earlier runs have no part in a group's evaluation, if they have none in those of its
members. -/
theorem evaluate_group_eq_carry {e : Engine} {p : Provider σ} {chain : List String}
    {q : Quantifier} {h : Heading} {cs : List Condition}
    (hmembers : ∀ c ∈ cs, e.evaluate p chain c =
      Prod.map id (carry c) <$> e.cleared.evaluate p chain c.clear) :
    e.evaluate p chain (.group q h cs) = Prod.map id (carry (.group q h cs)) <$>
      e.cleared.evaluate p chain (.group q h (cs.map clear)) := by
  have htasks (w : World σ) : cs.map (e.task p chain w.facts) =
      ((cs.map clear).map (e.cleared.task p chain w.facts)).mapIdx fun i =>
        Task.change (carryAt cs i) := by
    refine List.ext_getElem (by simp) fun i hi _ => ?_
    rw [List.length_map] at hi
    simp [task, Task.change, carryAt, hi, effectivePriority_clear, carry_clear_self,
      hmembers cs[i] (List.getElem_mem hi)]
  rw [evaluate, evaluate, map_bind]
  refine bind_congr fun w => ?_
  change (Schedule.run q.neutral (cs.map (e.task p chain w.facts)) >>= _) =
    _ <$> (Schedule.run q.neutral ((cs.map clear).map (e.cleared.task p chain w.facts)) >>= _)
  rw [htasks, Schedule.run_change, bind_map_left, map_bind]
  refine bind_congr fun v => ?_
  exact congrArg (fun cs' => (pure (v.1, group q h cs') : Action (World σ) (Bool × Condition)))
    (carryAll_eq_mapIdx cs v.2).symm

/-- Results of earlier runs have no part in an evaluation. Those of the condition are found again
where it does not reach, and those of the stored conditions nowhere. -/
theorem evaluate_eq_carry (e : Engine) (p : Provider σ) (chain : List String) (c : Condition) :
    e.evaluate p chain c = Prod.map id (carry c) <$> e.cleared.evaluate p chain c.clear := by
  induction chain, c using Engine.evaluate.induct e with
  | case1 chain q h cs ih =>
    rw [clear, clearAll_eq_map]
    exact evaluate_group_eq_carry ih
  | case2 chain h c ih =>
    rw [evaluate, clear, evaluate, ih]
    simp only [map_bind, bind_map_left]
    rfl
  | case3 chain l =>
    rw [evaluate, clear, evaluate, map_bind]
    rfl
  | case4 chain ref hmem =>
    rw [clear, evaluate_of_mem hmem, evaluate_of_mem hmem]
    rfl
  | case5 chain ref hnew stored hget ih =>
    have hget' : e.cleared.conditions.get? ref.condition = some stored.clear := by
      rw [get?_cleared, hget, Option.map_some]
    rw [clear, evaluate_of_get? hnew hget, evaluate_of_get? hnew hget', ih, realize_clear,
      clear_realize, carry_of_clear_eq (clear_realize stored ref), carry_reference]
  | case6 chain ref hnew hget hallow =>
    have hget' : e.cleared.conditions.get? ref.condition = none := by
      rw [get?_cleared, hget, Option.map_none]
    rw [clear, evaluate_of_get?_eq_none hnew hget, evaluate_of_get?_eq_none hnew hget',
      policy_cleared, if_pos hallow]
    rfl
  | case7 chain ref hnew hget hallow =>
    have hget' : e.cleared.conditions.get? ref.condition = none := by
      rw [get?_cleared, hget, Option.map_none]
    rw [clear, evaluate_of_get?_eq_none hnew hget, evaluate_of_get?_eq_none hnew hget',
      policy_cleared, if_neg hallow]
    rfl

end Engine

/-! Reports. -/

section
variable {σ : Type}

/-- The rule without what is recorded in it. -/
def Rule.cleared (rule : Rule) : Rule := { rule with conditions := rule.conditions.clear }

/-- The report that shows the records of `before` on comparisons without one. -/
def Report.carry (before : Condition) (report : Report) : Report :=
  { report with conditions := before.carry report.conditions }

theorem Report.resolveParams_carry (p : Provider σ) (before : Condition) (report : Report) :
    (report.carry before).resolveParams p = Report.carry before <$> report.resolveParams p := by
  unfold resolveParams
  have hevent : (report.carry before).event = report.event := rfl
  rw [hevent]
  cases report.event.params with
  | none => rfl
  | some params =>
    rw [map_bind]
    rfl

theorem Report.member?_conditions (report : Report) :
    report.toJson.member? "conditions" = some report.conditions.toJson := by
  simp [toJson, Json.member?, Json.toObject?, Table.ofList, Table.insertAll, Table.get?_insert]

/-- What is carried over shows in the report just if it shows in the tree. -/
theorem Report.toJson_carry_eq_iff {before before' : Condition} {report : Report} :
    (report.carry before).toJson = (report.carry before').toJson ↔
      (before.carry report.conditions).toJson = (before'.carry report.conditions).toJson := by
  refine ⟨fun h => ?_, fun h => ?_⟩
  · have hmember := congrArg (Json.member? · "conditions") h
    simp only [Report.member?_conditions] at hmember
    exact Option.some.inj hmember
  · simp only [toJson, carry] at h ⊢
    rw [h]

theorem Engine.execute_eq_carry (e : Engine) (p : Provider σ) (rule : Rule) :
    e.execute p rule = Report.carry rule.conditions <$> e.cleared.execute p rule.cleared := by
  simp only [execute, evaluate_eq_carry e p [] rule.conditions, map_bind, bind_map_left]
  refine bind_congr fun v => ?_
  let report : Report := { Report.ofRule rule.cleared with conditions := v.2, result := some v.1 }
  change (if e.policy.replaceFactsInEventParams then
      World.onFacts ((report.carry rule.conditions).resolveParams p)
    else pure (report.carry rule.conditions)) =
    Report.carry rule.conditions <$> if e.policy.replaceFactsInEventParams then
      World.onFacts (report.resolveParams p) else pure report
  rw [apply_ite (Functor.map _), Report.resolveParams_carry]
  congr 1
  exact onPart_map _ _ _ _

end

/-! Which comparisons show a result. -/

namespace Condition
variable {c c' : Condition} {r : Reference}

theorem Unrecorded.clear_eq (h : Unrecorded c c') : c'.clear = c' := by
  induction h with
  | @group q h cs cs' hlength _ ih =>
    rw [clear, clearAll_eq_map]
    refine congrArg (Condition.group q h) (List.ext_getElem (List.length_map _) fun i hi hi' => ?_)
    rw [List.getElem_map]
    have hget := List.getElem?_eq_getElem (hlength ▸ hi' : i < cs.length)
    exact ih i _ _ hget (List.getElem?_eq_getElem hi')
  | not _ ih => rw [clear, ih]
  | reference => rfl
  | leaf => rfl

theorem Inherits.clear_eq (h : Inherits r c c') (hc : c.clear = c) : c'.clear = c' := by
  cases h with
  | group =>
    rw [clear, Condition.group.injEq] at hc
    rw [clear, hc.2.2]
  | not =>
    rw [clear, Condition.not.injEq] at hc
    rw [clear, hc.2]
  | reference => rfl
  | leaf =>
    rw [clear, Condition.leaf.injEq] at hc
    rw [clear, Leaf.clear, ← hc]
    rfl

end Condition

namespace Engine
variable {σ : Type} {e : Engine} {p : Provider σ}

/-- In a tree that had no records just the comparisons that were made have one. -/
theorem Visits.records_eq {chain : List String} {c c' : Condition} {verdict : Bool}
    {sight : Sight σ} {made : List Leaf} (h : e.Visits p chain c verdict c' sight made)
    (hc : c.clear = c) : c'.records = made := by
  induction h with
  | @group chain q h cs cs' facts sights priorities verdicts verdict part hlength hsights
      hpriorities hcourse _ hleft ih =>
    rw [clear, clearAll_eq_map, Condition.group.injEq] at hc
    rw [records, recordsAll_eq_flatMap, List.flatMap_def, List.flatMap_def]
    refine congrArg List.flatten (List.ext_getElem (by simp [hlength]) fun i hi hi' => ?_)
    rw [List.length_map] at hi
    rw [List.getElem_map, List.getElem_map, List.getElem_range]
    have hi' : i < cs.length := hlength ▸ hi
    have hget := List.getElem?_eq_getElem hi'
    have hget' := List.getElem?_eq_getElem hi
    have hclear : cs[i].clear = cs[i] := by
      have hmap := congrArg (·[i]?) hc.2.2
      rw [List.getElem?_map, hget] at hmap
      exact Option.some.inj hmap
    have hlt : i < verdicts.length := by rwa [hcourse.length_eq, ← hpriorities.length_eq]
    have hsight := List.getElem?_eq_getElem (hsights ▸ hi' : i < sights.length)
    cases hv : verdicts[i] with
    | none =>
      obtain ⟨he, hnil⟩ := hleft i _ _ hget hget' (by rw [List.getElem?_eq_getElem hlt, hv])
      rw [he, hnil, ← hclear, records_clear]
    | some b =>
      exact ih i _ _ _ b hget hget' hsight (by rw [List.getElem?_eq_getElem hlt, hv]) hclear
  | not _ ih =>
    rw [clear, Condition.not.injEq] at hc
    rw [records, ih hc.2]
  | leaf o => rfl
  | expanded _ _ hbare hinherits _ ih => exact ih (hinherits.clear_eq hbare.clear_eq)
  | missing _ _ _ => rfl

theorem run_execute (e : Engine) (p : Provider σ) (rule : Rule) (w : World σ) :
    (e.execute p rule).run w =
      (((e.cleared.execute p rule.cleared).run w).1.map (Report.carry rule.conditions),
        ((e.cleared.execute p rule.cleared).run w).2) := by
  rw [execute_eq_carry, run_map]

/-- Let two rules and two stores be the same but for results of earlier runs. The reports then show
what the rule had on the comparisons that are not made, and are the same just if that is. So they
are if the rules had nothing, whatever the stores have, and the comparisons that show a result are
those that the run made. Where the provider's answers depend on the request alone, it makes no
difference either which rules ran before. -/
theorem execute_carries (p : Provider σ) {e e' : Engine} {rule rule' : Rule}
    (he : e.cleared = e'.cleared) (hrule : rule.cleared = rule'.cleared) :
    let fresh (w : World σ) := (e.cleared.execute p rule.cleared).run w
    (∀ w,
      (e.execute p rule).run w = ((fresh w).1.map (.carry rule.conditions), (fresh w).2) ∧
      (e'.execute p rule').run w = ((fresh w).1.map (.carry rule'.conditions), (fresh w).2)) ∧
    (∀ w,
      ((e.execute p rule).run w).1.map Report.toJson =
          ((e'.execute p rule').run w).1.map Report.toJson ↔
        ∀ report, (fresh w).1 = .ok report →
          (carry rule.conditions report.conditions).toJson =
            (carry rule'.conditions report.conditions).toJson) ∧
    (rule.cleared = rule → rule'.cleared = rule' → ∀ w,
      (e.execute p rule).run w = (e'.execute p rule').run w ∧
      ∀ report, ((e.execute p rule).run w).1 = .ok report →
        ∃ verdict sight made, report.result = some verdict ∧
          e.Visits p [] rule.conditions verdict report.conditions sight made ∧
          report.conditions.records = made) ∧
    ∀ {r : Registry} {I : σ → Prop}, p.Prompt I (fun _ _ => True) →
      ∀ w w', w.Extends r I → w'.Extends r I → (fresh w).1 = (fresh w').1 := by
  intro fresh
  have hruns (w : World σ) :
      (e.execute p rule).run w = ((fresh w).1.map (.carry rule.conditions), (fresh w).2) ∧
      (e'.execute p rule').run w = ((fresh w).1.map (.carry rule'.conditions), (fresh w).2) := by
    refine ⟨run_execute e p rule w, ?_⟩
    rw [run_execute, ← he, ← hrule]
  refine ⟨hruns, fun w => ?_, fun hclear hclear' w => ⟨?_, fun report hreport => ?_⟩,
    fun {r I} hp w w' hw hw' => ?_⟩
  · rw [(hruns w).1, (hruns w).2]
    cases (fresh w).1 with
    | error fault => exact ⟨fun _ _ h => (nomatch h), fun _ => rfl⟩
    | ok report =>
      simp only [Except.map, Except.ok.injEq, Report.toJson_carry_eq_iff, forall_eq']
  · have hsame : rule = rule' := by rw [← hclear, hrule, hclear']
    rw [(hruns w).1, (hruns w).2, hsame]
  · obtain ⟨verdict, sight, made, hresult, hvisits⟩ := exists_visits (Prod.ext hreport rfl)
    exact ⟨verdict, sight, made, hresult, hvisits,
      hvisits.records_eq (congrArg Rule.conditions hclear)⟩
  · have hdetermined : Determined (World.Extends r I) (fun _ => True)
        (e.cleared.execute p rule.cleared) := determined_execute hp e.cleared fun _ _ => trivial
    exact ((hdetermined.ends hw').run hw).1

/-- What is recorded in a stored condition shows in no report. -/
theorem execute_carries_stored :
    let p : Provider Unit := .ofTable (.ofList [("go", .bool true), ("late", .bool true)])
    let go : Leaf := { Leaf.ofComparison "go" "equal" (.bool true) with priority := some 2 }
    let late : Leaf := .ofComparison "late" "equal" (.bool true)
    let seen : Leaf := late.record ⟨.bool false, .bool true, false⟩
    let store (l : Leaf) : Engine :=
      ⟨.ofList [("start", .group .any ⟨1, none, .empty⟩ [.leaf l, .leaf go])], {}⟩
    let rule : Rule := ⟨none, 1, .reference ⟨"start", none, none, .empty⟩, ⟨"start", none⟩⟩
    (store seen).cleared = (store late).cleared ∧ rule.cleared = rule ∧ ∀ w : World Unit,
      ((store seen).execute p rule).run w = ((store late).execute p rule).run w := by
  intro p go late seen store rule
  have hstore : (store seen).cleared = (store late).cleared := rfl
  exact ⟨hstore, rfl, fun w => ((execute_carries p hstore rfl).2.2.1 rfl rfl w).1⟩

/-- A rule with the tree of an earlier report shows a result of the earlier run on a comparison that
the new run spares. -/
theorem execute_carries_spared :
    let facts (go : Bool) : Provider Unit :=
      .ofTable (.ofList [("go", .bool go), ("late", .bool true)])
    let go : Leaf := { Leaf.ofComparison "go" "equal" (.bool true) with priority := some 2 }
    let late : Leaf := .ofComparison "late" "equal" (.bool true)
    let e : Engine := ⟨.empty, {}⟩
    let rule : Rule :=
      ⟨none, 1, .group .any ⟨1, none, .empty⟩ [.leaf late, .leaf go], ⟨"start", none⟩⟩
    let w : World Unit := ⟨Registry.run true [], ()⟩
    ∃ report : Report, ((e.execute (facts false) rule).run w).1 = .ok report ∧
      let again : Rule := { rule with conditions := report.conditions }
      (facts true).Prompt (fun _ => True) (fun _ _ => True) ∧ again.cleared = rule.cleared ∧
      ((e.execute (facts true) again).run w).1.map Report.toJson ≠
        ((e.execute (facts true) rule).run w).1.map Report.toJson := by
  intro facts go late e rule w
  let rest : Evaluator Unit := fun _ _ => .fail .missingFactId
  have hevaluate (b : Bool) : e.evaluate (facts b) [] rule.conditions = _ :=
    evaluate_pair rest (n := 1) (by decide) fun _ => show (1 : Int64) < 2 by decide
  let yes : Observation := ⟨.bool true, .bool true, true⟩
  let no : Observation := ⟨.bool false, .bool true, false⟩
  let report (o o' : Option Observation) : Report := { Report.ofRule rule with
    conditions := .group .any ⟨1, none, .empty⟩
      [.leaf { late with observation := o }, .leaf { go with observation := o' }]
    result := some true }
  have hearlier : ((e.execute (facts false) rule).run w).1 = .ok (report (some yes) (some no)) := by
    simp only [execute, hevaluate]
    cbv
  have hrule : ((e.execute (facts true) rule).run w).1 = .ok (report none (some yes)) := by
    simp only [execute, hevaluate]
    cbv
  let again : Rule := { rule with conditions := (report (some yes) (some no)).conditions }
  have hagain : ((e.execute (facts true) again).run w).1 = .ok (report (some yes) (some yes)) := by
    have hrun := congrArg Prod.fst (run_execute e (facts true) again w)
    change _ = ((e.execute (facts true) rule).run w).1.map _ at hrun
    rw [hrun, hrule]
    rfl
  refine ⟨_, hearlier, Provider.prompt_ofTable _, rfl, fun h => ?_⟩
  change ((e.execute (facts true) again).run w).1.map Report.toJson = _ at h
  rw [hagain, hrule] at h
  -- does the first comparison of the report show a result?
  let shown (j : Json) : Bool := (do
    let members ← (← (← j.member? "conditions").member? "any").toArray?
    (← members[0]?).member? "result").isSome
  exact absurd (congrArg shown (Except.ok.inj h)) (by decide +kernel)

end Engine
end Verdict
