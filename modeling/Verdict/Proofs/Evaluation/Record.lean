import Verdict.Proofs.Evaluation.Meaning

/-!
# What a report records

A tree after its evaluation shows which comparisons were made and what each of them gave. The
verdict can be read off it again: what was not evaluated is unknown, and the rest decides. This
holds for any provider, since the tree is compared with itself only.
-/
namespace Verdict
open Verdict.Action Verdict.Condition

def Json.toBool? : Json → Option Bool
  | bool b => some b
  | _ => none

namespace Condition

mutual

/-- The verdict that the tree shows. A comparison shows what was recorded of it, a reference what
stands under `result`, and either is unknown without that. -/
def recorded : Condition → Option Bool
  | group q _ cs => q.combine (recordedAll cs)
  | not _ c => Kleene.not (recorded c)
  | reference r => (r.extra.get? "result").bind Json.toBool?
  | leaf l => l.observation.map (·.result)

def recordedAll : List Condition → List (Option Bool)
  | [] => []
  | c :: cs => recorded c :: recordedAll cs

end

theorem recordedAll_eq_map (cs : List Condition) : recordedAll cs = cs.map recorded := by
  induction cs with
  | nil => rfl
  | cons c cs ih => rw [recordedAll, ih, List.map_cons]

/-- What is recorded is what the operator of that name gives for the two recorded values. -/
def Leaf.Explained (r : Registry) (l : Leaf) : Prop :=
  ∃ o operator, l.observation = some o ∧ (r.resolve l.operator).1 = .ok operator ∧
    o.result = operator.evaluate o.fact o.value

end Condition

/-- The account of an evaluation inside the chain: the condition before, the verdict, and the
condition afterwards. `P` holds of every comparison that was made, with what was recorded of it. A
member of a group was evaluated as its priority demands, or else stayed as it was. -/
inductive Engine.Ran {σ : Type} (e : Engine) (p : Provider σ) (P : Leaf → Prop) :
    List String → Condition → Bool → Condition → Prop
  | group {chain : List String} {q : Quantifier} {h : Heading} {cs cs' : List Condition}
      {verdicts : List (Option Bool)} {verdict : Bool} (facts : σ)
      (hlength : cs'.length = cs.length)
      (hcourse : Schedule.Course q.neutral (cs.map (effectivePriority p facts)) verdicts verdict)
      (hran : ∀ (i : Nat) (c c' : Condition) (b : Bool), cs[i]? = some c → cs'[i]? = some c' →
        verdicts[i]? = some (some b) → Ran e p P chain c b c')
      (hleft : ∀ (i : Nat) (c c' : Condition), cs[i]? = some c → cs'[i]? = some c' →
        verdicts[i]? = some none → c' = c) :
      Ran e p P chain (.group q h cs) verdict (.group q h cs')
  | not {chain : List String} {h : Heading} {c c' : Condition} {verdict : Bool}
      (hc : Ran e p P chain c verdict c') : Ran e p P chain (.not h c) (!verdict) (.not h c')
  | leaf {chain : List String} {l : Leaf} {o : Observation} (hl : P (l.record o)) :
      Ran e p P chain (.leaf l) o.result (.leaf (l.record o))
  | expanded {chain : List String} {ref : Reference} {stored c' : Condition} {verdict : Bool}
      (hnew : ref.condition ∉ chain) (hget : e.conditions.get? ref.condition = some stored)
      (hc : Ran e p P (chain ++ [ref.condition]) (realize stored ref) verdict c') :
      Ran e p P chain (.reference ref) verdict c'
  | missing {chain : List String} {ref : Reference} (hnew : ref.condition ∉ chain)
      (hget : e.conditions.get? ref.condition = none)
      (hallow : e.policy.allowUndefinedConditions) :
      Ran e p P chain (.reference ref) false
        (.reference { ref with extra := ref.extra.insert "result" (.bool false) })

namespace Engine
variable {σ : Type} {e : Engine} {p : Provider σ} {P : Leaf → Prop}

/-- The tree afterwards shows the verdict: what was not evaluated has no say in it. -/
theorem Ran.recorded_eq {chain : List String} {c c' : Condition} {verdict : Bool}
    (h : e.Ran p P chain c verdict c') : c'.recorded = some verdict := by
  induction h with
  | @group chain q h cs cs' verdicts verdict facts hlength hcourse _ _ ih =>
    have hverdicts : verdicts.length = cs'.length := by
      rw [hcourse.length_eq, List.length_map, hlength]
    -- what the i-th member shows, once it gave a verdict
    have hshown {i : Nat} {b : Bool} (hb : verdicts[i]? = some (some b)) :
        (cs'.map Condition.recorded)[i]? = some (some b) := by
      have hi' : i < cs'.length := hverdicts ▸ (List.getElem?_eq_some_iff.1 hb).1
      have hi : i < cs.length := hlength ▸ hi'
      rw [List.getElem?_map, List.getElem?_eq_getElem hi', Option.map_some,
        ih i cs[i] cs'[i] b (List.getElem?_eq_getElem hi) (List.getElem?_eq_getElem hi') hb]
    rw [recorded, recordedAll_eq_map]
    rcases hcourse.verdict_eq with ⟨rfl, hneutral⟩ | ⟨rfl, hdecisive⟩
    · refine Quantifier.combine_of_neutral fun v hv => ?_
      obtain ⟨i, hi⟩ := List.getElem?_of_mem hv
      have hlt : i < verdicts.length := by
        have := (List.getElem?_eq_some_iff.1 hi).1
        rwa [List.length_map, ← hverdicts] at this
      have hb := List.getElem?_eq_getElem hlt
      rw [hneutral _ (List.mem_of_getElem? hb)] at hb
      exact Option.some.inj (hi.symm.trans (hshown hb))
    · obtain ⟨i, hi⟩ := List.getElem?_of_mem hdecisive
      exact Quantifier.combine_of_decisive (List.mem_of_getElem? (hshown hi))
  | not _ ih =>
    rw [recorded, ih]
    rfl
  | leaf _ =>
    rw [recorded]
    rfl
  | expanded _ _ _ ih => exact ih
  | missing _ _ _ =>
    rw [recorded, Table.get?_insert_self]
    rfl

variable {J : World σ → Prop}

/-- A group's evaluation has an account, if its members' have. -/
theorem ensures_ran_group {chain : List String} {q : Quantifier} {h : Heading}
    {cs : List Condition}
    (hmembers : ∀ c ∈ cs, Ensures J (fun v => e.Ran p P chain c v.1 v.2) (fun _ => True)
      (e.evaluate p chain c)) :
    Ensures J (fun v => e.Ran p P chain (.group q h cs) v.1 v.2) (fun _ => True)
      (e.evaluate p chain (.group q h cs)) := by
  rw [evaluate]
  refine Ensures.state.bind fun w _ => ?_
  have hrun (i : Nat) (task : Task (World σ) Condition)
      (htask : (cs.map fun c => (⟨c.effectivePriority p w.facts, c, e.evaluate p chain c⟩ :
        Task (World σ) Condition))[i]? = some task) :
      Ensures J (fun v => ∃ c, cs[i]? = some c ∧ e.Ran p P chain c v.1 v.2) (fun _ => True)
        task.run := by
    rw [List.getElem?_map, Option.map_eq_some_iff] at htask
    obtain ⟨c, hc, rfl⟩ := htask
    exact (hmembers c (List.mem_of_getElem? hc)).mono (fun v hv => ⟨c, hc, hv⟩) fun _ h => h
  refine (Schedule.ensures_run fun i task htask _ => hrun i task htask).bind
    fun v hv => Ensures.pure ?_
  obtain ⟨slots, hfinished, hsubjects⟩ := hv
  -- the slot of a member, and the member as it is left
  have hslot {i : Nat} {c c' : Condition} (hc : cs[i]? = some c) (hc' : v.2[i]? = some c') :
      ∃ slot, slots[i]? = some slot ∧ slot.subject = c' ∧
        (slot = .waiting ⟨c.effectivePriority p w.facts, c, e.evaluate p chain c⟩ ∨
          ∃ b a, slot = .settled b a ∧ e.Ran p P chain c b a) := by
    have htask : (cs.map fun c => (⟨c.effectivePriority p w.facts, c, e.evaluate p chain c⟩ :
        Task (World σ) Condition))[i]? =
        some ⟨c.effectivePriority p w.facts, c, e.evaluate p chain c⟩ := by
      rw [List.getElem?_map, hc, Option.map_some]
    obtain ⟨slot, hslot, hends⟩ := hfinished.slot htask
    rw [hsubjects, List.getElem?_map, hslot] at hc'
    refine ⟨slot, hslot, Option.some.inj hc', hends.imp_right ?_⟩
    rintro ⟨b, a, ha, c'', hc'', hran⟩
    rw [hc] at hc''
    cases hc''
    exact ⟨b, a, ha, hran⟩
  have hcourse := hfinished.course
  rw [List.map_map] at hcourse
  refine .group w.facts ?_ hcourse ?_ ?_
  · rw [hsubjects, List.length_map, hfinished.length_eq, List.length_map]
  · intro i c c' b hc hc' hb
    obtain ⟨slot, hget, rfl, rfl | ⟨b', a, rfl, hran⟩⟩ := hslot hc hc'
    · rw [List.getElem?_map, hget] at hb
      cases hb
    · rw [List.getElem?_map, hget] at hb
      cases hb
      exact hran
  · intro i c c' hc hc' hnone
    obtain ⟨slot, hget, rfl, rfl | ⟨b', a, rfl, -⟩⟩ := hslot hc hc'
    · rfl
    · rw [List.getElem?_map, hget] at hnone
      cases hnone

/-- Every evaluation has an account, with `P` of each comparison for which making it ensures `P`. -/
theorem ensures_ran (hleaf : ∀ l : Leaf, Ensures J (fun o => P (l.record o)) (fun _ => True)
    (l.observe p)) (chain : List String) (c : Condition) :
    Ensures J (fun v => e.Ran p P chain c v.1 v.2) (fun _ => True) (e.evaluate p chain c) := by
  induction chain, c using Engine.evaluate.induct e with
  | case1 chain q h cs ih => exact ensures_ran_group ih
  | case2 chain h c ih =>
    rw [evaluate]
    exact ih.bind fun v hv => Ensures.pure (.not hv)
  | case3 chain l =>
    rw [evaluate]
    exact (hleaf l).bind fun o ho => Ensures.pure (.leaf ho)
  | case4 chain ref hmem =>
    rw [evaluate_of_mem hmem]
    exact True.intro
  | case5 chain ref hnew stored hget ih =>
    rw [evaluate_of_get? hnew hget]
    exact ih.mono (fun v hv => .expanded hnew hget hv) fun _ h => h
  | case6 chain ref hnew hget hallow =>
    rw [evaluate_of_get?_eq_none hnew hget, if_pos hallow]
    exact Ensures.pure (.missing hnew hget hallow)
  | case7 chain ref hnew hget hallow =>
    rw [evaluate_of_get?_eq_none hnew hget, if_neg hallow]
    exact True.intro

end Engine

/-- Whatever the provider answers, a comparison is recorded with its operator's verdict on it. -/
theorem Condition.Leaf.ensures_explained {σ : Type} (r : Registry) (p : Provider σ) (l : Leaf) :
    Ensures (World.Extends r fun _ => True) (fun o => Explained r (l.record o)) (fun _ => True)
      (l.observe p) := by
  refine ((World.yields_operator l.operator).mono (fun _ h => h) fun _ _ => True.intro).bind
    fun operator hoperator => ?_
  refine (World.ensures_onFacts (ensures_true _)).bind fun seen _ => Ensures.pure ?_
  exact ⟨_, operator, rfl, hoperator, rfl⟩

/-- Putting facts into the event changes neither the tree nor the verdict. -/
theorem Report.ensures_resolveParams {σ : Type} (p : Provider σ) (report : Report) :
    Ensures (fun _ => True)
      (fun report' => report'.conditions = report.conditions ∧ report'.result = report.result)
      (fun _ => True) (report.resolveParams p) := by
  unfold resolveParams
  split
  · exact Ensures.pure ⟨rfl, rfl⟩
  · exact (ensures_true _).bind fun _ _ => Ensures.pure ⟨rfl, rfl⟩

namespace Engine
variable {σ : Type}

theorem ensures_execute_ran (r : Registry) (e : Engine) (p : Provider σ) (rule : Rule) :
    Ensures (World.Extends r fun _ => True)
      (fun report => ∃ verdict, report.result = some verdict ∧
        e.Ran p (Leaf.Explained r) [] rule.conditions verdict report.conditions)
      (fun _ => True) (e.execute p rule) := by
  rw [execute_eq]
  refine (ensures_ran (Leaf.ensures_explained r p) [] rule.conditions).bind fun v hv => ?_
  refine Ensures.ite ?_ (Ensures.pure ⟨v.1, rfl, hv⟩)
  refine (World.ensures_onFacts (Report.ensures_resolveParams p (reported rule v))).mono ?_
    fun _ h => h
  rintro report' ⟨hconditions, hresult⟩
  exact ⟨v.1, hresult, hconditions ▸ hv⟩

/-- The tree of a report explains its verdict: read off from what is recorded in it, the verdict is
that of the report, and for each comparison that was made the operator that its name resolves to
gives what is recorded of it. No run changes what a name resolves to. -/
theorem execute_explained (defaults : Bool) (calls : List Registry.Call) (e : Engine)
    (p : Provider σ) (rule : Rule) (facts : σ) {report : Report} {w : World σ}
    (h : (e.execute p rule).run ⟨Registry.run defaults calls, facts⟩ = (.ok report, w)) :
    let operators := Registry.run defaults calls
    ∃ verdict, report.result = some verdict ∧ report.conditions.recorded = some verdict ∧
      e.Ran p (Leaf.Explained operators) [] rule.conditions verdict report.conditions ∧
      ∀ name, (w.operators.resolve name).1 = (operators.resolve name).1 := by
  intro operators
  have hstart : World.Extends operators (fun _ => True) (⟨operators, facts⟩ : World σ) :=
    ⟨(Registry.wellNamed_run defaults calls).coherent, rfl, True.intro⟩
  obtain ⟨hmeets, hend⟩ := (ensures_execute_ran operators e p rule).run hstart
  rw [h] at hmeets hend
  obtain ⟨verdict, hresult, hran⟩ := hmeets
  exact ⟨verdict, hresult, hran.recorded_eq, hran, hend.resolve_fst⟩

/-- An admission, for which age decides before membership, and a list of the banned is missing. -/
theorem execute_explained_admission :
    let facts : Table Json := .ofList [("age", .ofInt64 20), ("member", .bool false)]
    let p : Provider Unit := .ofTable facts
    let heading : Heading := ⟨1, none, .empty⟩
    let age : Leaf :=
      { Leaf.ofComparison "age" "not:lessThan" (.ofInt64 18) with priority := some 2 }
    let member : Leaf := .ofComparison "member" "equal" (.bool true)
    let e : Engine :=
      ⟨.ofList [("known", .group .any heading [.leaf member, .leaf age])], ⟨true, false⟩⟩
    let banned : Condition := .reference ⟨"banned", none, none, .empty⟩
    let rule : Rule := ⟨none, 1, .group .all heading [.not heading banned,
      .reference ⟨"known", none, none, .empty⟩], ⟨"admit", none⟩⟩
    let operators := Registry.run true []
    ∃ report w, (e.execute p rule).run ⟨operators, ()⟩ = (.ok report, w) ∧
      report.result = some true ∧ report.conditions.recorded = some true ∧
      e.Ran p (Leaf.Explained operators) [] rule.conditions true report.conditions := by
  intro facts p heading age member e banned rule operators
  have hknown : e.conditions.get? "known" = some (.group .any heading [.leaf member, .leaf age]) :=
    rfl
  let formula : Formula := .group .all [.not (.constant (some false)),
    .group .any [.comparison member.comparison, .comparison age.comparison]]
  have hformula : e.expand [] rule.conditions = formula := by
    have hreference : e.expand [] (.reference ⟨"known", none, none, .empty⟩) =
        e.expand ["known"] (.group .any heading [.leaf member, .leaf age]) :=
      expand_of_get? List.not_mem_nil hknown
    have hbanned : e.expand [] banned = .constant (some false) :=
      expand_of_get?_eq_none List.not_mem_nil rfl
    rw [expand, List.map_cons, List.map_cons, hreference, expand, expand, hbanned, List.map_cons,
      List.map_cons, expand, expand]
    rfl
  let test := Comparison.test operators (.ofTable facts)
  have hsound : formula.isSound test := by decide +kernel
  have htrue : formula.meaning test = some true := by decide +kernel
  have hmeets : Meets _ _ ((e.execute p rule).run ⟨operators, ()⟩).1 :=
    meets_execute true [] e rule (Provider.gives_ofTable (I := fun _ => True) facts) trivial rfl
  rw [hformula] at hmeets
  cases hrun : (e.execute p rule).run ⟨operators, ()⟩ with
  | mk outcome w =>
    rw [hrun] at hmeets
    cases outcome with
    | error fault => exact absurd hsound hmeets
    | ok report =>
      obtain ⟨verdict, hresult, hmeaning⟩ := hmeets
      obtain ⟨verdict', hresult', hrecorded, hran, -⟩ := execute_explained true [] e p rule () hrun
      obtain rfl : verdict' = true := by
        rw [hresult] at hresult'
        exact (Option.some.inj hresult').symm.trans (Option.some.inj (hmeaning.symm.trans htrue))
      exact ⟨report, w, rfl, hresult', hrecorded, hran⟩

end Engine
end Verdict
