import Verdict.Proofs.Evaluation.Formula
import Verdict.Proofs.Operator.Run
import Verdict.Proofs.Provider
import Verdict.Proofs.Schedule

/-!
# Verdicts and meanings

Running a rule gives the verdict that its formula means, whatever the priorities are and however
the turns fall; and it gives one if no comparison, circle or missing condition fails.
-/
namespace Verdict
open Verdict.Action Verdict.Condition

variable {σ : Type} {I : σ → Prop} {p : Provider σ} {r : Registry} {answers : Answers}

/-- The verdict on a comparison; it has none if its operator, its value or its fact fails. -/
def Comparison.test (r : Registry) (answers : Answers) (c : Comparison) : Option Bool :=
  match (r.resolve c.operator).1, answers.value c.value,
    answers.factValue c.fact c.params c.path with
  | .ok o, .ok value, .ok fact => some (o.evaluate fact value)
  | _, _, _ => none

theorem Comparison.test_eq_none (r : Registry) (answers : Answers) {c : Comparison} {e : Fault}
    (h : (r.resolve c.operator).1 = .error e ∨ answers.value c.value = .error e ∨
      answers.factValue c.fact c.params c.path = .error e) : c.test r answers = none := by
  unfold test
  split
  · rename_i ho hvalue hfact
    simp [ho, hvalue, hfact] at h
  · rfl

/-- The operators of the world are those of `r`, perhaps with compositions of them. -/
structure World.Extends (r : Registry) (I : σ → Prop) (w : World σ) : Prop where
  coherent : Registry.Coherent r.operators w.operators
  decorators_eq : w.operators.decorators = r.decorators
  facts : I w.facts

namespace World

theorem Extends.wellNamed {w : World σ} (h : w.Extends r I) : r.WellNamed where
  operator_name hget := h.coherent.operator_name (h.coherent.registered_le hget)
  decorator_name hget := h.coherent.decorator_name (h.decorators_eq ▸ hget)

theorem Extends.resolve_fst {w : World σ} (h : w.Extends r I) (name : String) :
    (w.operators.resolve name).1 = (r.resolve name).1 := by
  rw [h.coherent.resolve_fst, h.decorators_eq, h.wellNamed.coherent.resolve_fst]

theorem Extends.resolve_snd {w : World σ} (h : w.Extends r I) (name : String) :
    Extends r I { w with operators := (w.operators.resolve name).2 } where
  coherent := h.coherent.resolve_snd name
  decorators_eq := by rw [Registry.decorators_resolve, h.decorators_eq]
  facts := h.facts

theorem yields_operator (name : String) :
    Yields (Extends r I) (r.resolve name).1 (operator name) := by
  intro w hw
  have hdone := yields_done (Extends r I) (w.operators.resolve name).1
  exact ⟨hw.resolve_snd name, hw.resolve_fst name ▸ hdone⟩

theorem ensures_onFacts {α : Type} {P : α → Prop} {E : Fault → Prop} {x : Action σ α}
    (h : Ensures I P E x) : Ensures (Extends r I) P E (onFacts x) :=
  h.onPart (fun _ hw => hw.facts) fun _ _ hw hs => ⟨hw.coherent, hw.decorators_eq, hs⟩

end World

theorem Condition.ensures_observe (hp : p.Gives I answers) (l : Leaf) :
    Ensures (World.Extends r I) (fun o => l.comparison.test r answers = some o.result)
      (fun _ => l.comparison.test r answers = none) (l.observe p) := by
  have hoperator := (World.yields_operator (r := r) (I := I) l.operator).mono (fun _ h => h)
    fun _ he => Comparison.test_eq_none r answers (c := l.comparison) (.inl he)
  have hvalue := (hp.value l.value).mono (fun _ h => h)
    fun _ he => Comparison.test_eq_none r answers (c := l.comparison) (.inr (.inl he))
  have hfact := (hp.factValue l.fact (l.params.getD .null) l.path).mono (fun _ h => h)
    fun _ he => Comparison.test_eq_none r answers (c := l.comparison) (.inr (.inr he))
  refine hoperator.bind fun o ho => ?_
  refine (World.ensures_onFacts (hvalue.pair hfact)).bind fun seen hseen => Ensures.pure ?_
  simp only [Comparison.test, Leaf.comparison, ho, hseen.1, hseen.2]

/-- What is left of a schedule whose tasks gave verdicts in `vs` decides their combination. -/
theorem Quantifier.combine_of_finished {α : Type} {q : Quantifier} {tasks : List (Task σ α)}
    {slots : List (Slot σ α)} {vs : List (Option Bool)} {verdict : Bool}
    (hlength : vs.length = tasks.length)
    (h : Schedule.Finished q.neutral tasks (fun i v => vs[i]? = some (some v.1)) verdict slots) :
    q.combine vs = some verdict := by
  rcases h with ⟨rfl, hdue⟩ | ⟨rfl, priority, hstopped⟩
  · refine combine_of_neutral fun v hv => ?_
    obtain ⟨i, hi⟩ := List.getElem?_of_mem hv
    have hlt := (List.getElem?_eq_some_iff.1 hi).1
    rw [hlength] at hlt
    obtain ⟨slot, -, -, hran⟩ := hdue.slot (List.getElem?_eq_getElem hlt)
    obtain ⟨a, -, hverdict⟩ := hran List.not_mem_nil
    exact Option.some.inj (hi.symm.trans hverdict)
  · obtain ⟨i, task, slot, -, -, -, a, -, hverdict⟩ := hstopped.decisive
    exact combine_of_decisive (List.mem_of_getElem? hverdict)

namespace Engine

theorem evaluate_of_mem {e : Engine} {chain : List String} {ref : Reference}
    (h : ref.condition ∈ chain) :
    e.evaluate p chain (.reference ref) =
      .fail (.circularReference (chain ++ [ref.condition])) := by
  rw [evaluate, dif_pos h]

theorem evaluate_of_get? {e : Engine} {chain : List String} {ref : Reference} {stored : Condition}
    (hnew : ref.condition ∉ chain) (h : e.conditions.get? ref.condition = some stored) :
    e.evaluate p chain (.reference ref) =
      e.evaluate p (chain ++ [ref.condition]) (realize stored ref) := by
  rw [evaluate, dif_neg hnew]
  split
  · rename_i stored' h'
    rw [Option.some.inj (h.symm.trans h')]
  · rename_i h'
    rw [h] at h'
    cases h'

theorem evaluate_of_get?_eq_none {e : Engine} {chain : List String} {ref : Reference}
    (hnew : ref.condition ∉ chain) (h : e.conditions.get? ref.condition = none) :
    e.evaluate p chain (.reference ref) =
      if e.policy.allowUndefinedConditions then
        pure (false, .reference { ref with extra := ref.extra.insert "result" (.bool false) })
      else .fail (.undefinedCondition ref.condition) := by
  rw [evaluate, dif_neg hnew]
  split
  · rename_i stored h'
    rw [h] at h'
    cases h'
  · rfl

/-- The report on a rule after its evaluation. -/
def reported (rule : Rule) (v : Bool × Condition) : Report :=
  { Report.ofRule rule with conditions := v.2, result := some v.1 }

/-- A rule is evaluated, and then the parameters of its event are replaced, if they are to be. -/
theorem execute_eq (e : Engine) (p : Provider σ) (rule : Rule) :
    e.execute p rule = do
      let v ← e.evaluate p [] rule.conditions
      if e.policy.replaceFactsInEventParams then World.onFacts ((reported rule v).resolveParams p)
      else return reported rule v := rfl

/-- A group ensures its meaning, if its members do. -/
theorem ensures_evaluate_group (e : Engine) {chain : List String} {q : Quantifier} {h : Heading}
    {cs : List Condition}
    (hmembers : ∀ c ∈ cs, Ensures (World.Extends r I)
      (fun v => (e.expand chain c).meaning (Comparison.test r answers) = some v.1)
      (fun _ => ¬ (e.expand chain c).isSound (Comparison.test r answers))
      (e.evaluate p chain c)) :
    Ensures (World.Extends r I)
      (fun v => (e.expand chain (.group q h cs)).meaning (Comparison.test r answers) = some v.1)
      (fun _ => ¬ (e.expand chain (.group q h cs)).isSound (Comparison.test r answers))
      (e.evaluate p chain (.group q h cs)) := by
  rw [evaluate]
  refine Ensures.state.bind fun w hw => ?_
  have htasks (i : Nat) (task : Task (World σ) Condition)
      (htask : (cs.map fun c => (⟨c.effectivePriority p w.facts, c, e.evaluate p chain c⟩ :
        Task (World σ) Condition))[i]? = some task) :
      Ensures (World.Extends r I)
        (fun v => (cs.map fun c => (e.expand chain c).meaning (Comparison.test r answers))[i]? =
          some (some v.1))
        (fun _ => ¬ (e.expand chain (.group q h cs)).isSound (Comparison.test r answers))
        task.run := by
    rw [List.getElem?_map, Option.map_eq_some_iff] at htask
    obtain ⟨c, hc, rfl⟩ := htask
    have hmem : c ∈ cs := List.mem_of_getElem? hc
    refine (hmembers c hmem).mono (fun v hv => ?_) fun _ hfail hsound => hfail ?_
    · rw [List.getElem?_map, hc, Option.map_some, hv]
    · rw [expand, Formula.isSound, Formula.areSound_iff] at hsound
      exact hsound _ (List.mem_map_of_mem hmem)
  refine (Schedule.ensures_run fun i task htask _ => htasks i task htask).bind
    fun v hv => Ensures.pure ?_
  obtain ⟨slots, hfinished, -⟩ := hv
  rw [expand, Formula.meaning, Formula.meanings_eq_map, List.map_map]
  exact Quantifier.combine_of_finished (by simp) hfinished

/-- Evaluation ensures the meaning of the formula, and fails only if something in it does. -/
theorem ensures_evaluate (hp : p.Gives I answers) (e : Engine) (chain : List String)
    (c : Condition) :
    Ensures (World.Extends r I)
      (fun v => (e.expand chain c).meaning (Comparison.test r answers) = some v.1)
      (fun _ => ¬ (e.expand chain c).isSound (Comparison.test r answers))
      (e.evaluate p chain c) := by
  induction chain, c using Engine.evaluate.induct e with
  | case1 chain q h cs ih => exact ensures_evaluate_group e ih
  | case2 chain h c ih =>
    rw [evaluate, expand, Formula.meaning, Formula.isSound]
    refine ih.bind fun v hv => Ensures.pure ?_
    rw [hv]
    rfl
  | case3 chain l =>
    rw [evaluate, expand, Formula.meaning, Formula.isSound]
    refine ((ensures_observe hp l).mono (fun _ h => h) fun _ h => ?_).bind fun o ho =>
      Ensures.pure ho
    simp [h]
  | case4 chain ref hmem =>
    rw [evaluate_of_mem hmem, expand_of_mem hmem]
    exact Bool.false_ne_true
  | case5 chain ref hnew stored hget ih =>
    rw [expand_realize] at ih
    rw [evaluate_of_get? hnew hget, expand_of_get? hnew hget]
    exact ih
  | case6 chain ref hnew hget hallow =>
    rw [evaluate_of_get?_eq_none hnew hget, expand_of_get?_eq_none hnew hget, if_pos hallow,
      if_pos hallow]
    exact Ensures.pure rfl
  | case7 chain ref hnew hget hallow =>
    rw [evaluate_of_get?_eq_none hnew hget, expand_of_get?_eq_none hnew hget, if_neg hallow,
      if_neg hallow]
    exact Bool.false_ne_true

theorem ensures_execute (hp : p.Gives I answers) (e : Engine)
    (hreplace : e.policy.replaceFactsInEventParams = false) (rule : Rule) :
    Ensures (World.Extends r I)
      (fun report => ∃ verdict, report.result = some verdict ∧
        (e.expand [] rule.conditions).meaning (Comparison.test r answers) = some verdict)
      (fun _ => ¬ (e.expand [] rule.conditions).isSound (Comparison.test r answers))
      (e.execute p rule) := by
  refine (ensures_evaluate hp e [] rule.conditions).bind fun v hv => ?_
  simp only [hreplace]
  exact ⟨v.1, rfl, hv⟩

theorem meets_execute (defaults : Bool) (calls : List Registry.Call) (e : Engine) (rule : Rule)
    {facts : σ} (hp : p.Gives I answers) (hfacts : I facts)
    (hreplace : e.policy.replaceFactsInEventParams = false) :
    let test := Comparison.test (Registry.run defaults calls) answers
    Meets
      (fun report => ∃ verdict, report.result = some verdict ∧
        (e.expand [] rule.conditions).meaning test = some verdict)
      (fun _ => ¬ (e.expand [] rule.conditions).isSound test)
      ((e.execute p rule).run ⟨Registry.run defaults calls, facts⟩).1 :=
  ((ensures_execute hp e hreplace rule).run
    ⟨(Registry.wellNamed_run defaults calls).coherent, rfl, hfacts⟩).1

/-- A rule that runs without fault gives the verdict that its formula means, and it runs without
fault if nothing in the formula fails. So two such runs give one verdict, though the priorities
and the order inside groups differ between them. -/
theorem execute_meaning (defaults : Bool) (calls : List Registry.Call) (e : Engine) (rule : Rule)
    (facts : σ) (hp : p.Gives I answers) (hfacts : I facts)
    (hreplace : e.policy.replaceFactsInEventParams = false) :
    let operators := Registry.run defaults calls
    let formula := e.expand [] rule.conditions
    let outcome := ((e.execute p rule).run ⟨operators, facts⟩).1
    (∀ report, outcome = .ok report → ∃ verdict, report.result = some verdict ∧
        formula.meaning (Comparison.test operators answers) = some verdict) ∧
      (formula.isSound (Comparison.test operators answers) → ∃ report, outcome = .ok report) ∧
      ∀ {τ : Type} {J : τ → Prop} {p' : Provider τ} {facts' : τ} {e' : Engine} {rule' : Rule},
        p'.Gives J answers → J facts' → e'.policy.replaceFactsInEventParams = false →
        e.Rearranged e' → rule.conditions.Rearranged rule'.conditions →
        ∀ report report', outcome = .ok report →
          ((e'.execute p' rule').run ⟨operators, facts'⟩).1 = .ok report' →
          report.result = report'.result := by
  intro operators formula outcome
  have hmeets := meets_execute defaults calls e rule hp hfacts hreplace
  refine ⟨fun report h => hmeets.of_eq_ok h, fun hsound => ?_, ?_⟩
  · cases h : outcome with
    | ok report => exact ⟨report, rfl⟩
    | error fault => exact absurd hsound (hmeets.of_eq_error h)
  · intro τ J p' facts' e' rule' hp' hfacts' hreplace' he hrule report report' h h'
    obtain ⟨verdict, hresult, hmeaning⟩ := hmeets.of_eq_ok h
    have hmeets' := meets_execute defaults calls e' rule' hp' hfacts' hreplace'
    obtain ⟨verdict', hresult', hmeaning'⟩ := hmeets'.of_eq_ok h'
    rw [hresult, hresult', ← hmeaning, ← hmeaning', meaning_expand_of_rearranged he _ _ hrule]

/-- Members pass, in whichever order and with whichever priorities the rule asks. -/
theorem execute_membership :
    let facts : Table Json := .ofList [("member", .bool true)]
    let p : Provider Unit := .ofTable facts
    let heading (priority : Int64) : Heading := ⟨priority, none, .empty⟩
    let leaf : Condition := .leaf (.ofComparison "member" "not:equal" (.bool false))
    let e : Engine := ⟨.ofList [("members", .group .any (heading 1) [leaf])], {}⟩
    let reference : Reference := ⟨"members", none, none, .empty⟩
    let nobody : Condition := .not (heading 2) (.group .any (heading 1) [])
    let rule : Rule :=
      ⟨none, 1, .group .all (heading 1) [.reference reference, nobody], ⟨"greet", none⟩⟩
    let rule' : Rule :=
      ⟨none, 1, .group .all (heading 7) [nobody, .reference { reference with priority := some 3 }],
        ⟨"greet", none⟩⟩
    let outcome (rule : Rule) := ((e.execute p rule).run ⟨Registry.run true [], ()⟩).1
    p.Gives (fun _ => True) (.ofTable facts) ∧ e.policy.replaceFactsInEventParams = false ∧
      (∃ report, outcome rule = .ok report ∧ report.result = some true) ∧
      ∀ report report', outcome rule = .ok report → outcome rule' = .ok report' →
        report.result = report'.result := by
  intro facts p heading leaf e reference nobody rule rule' outcome
  have hp : p.Gives (fun _ => True) (.ofTable facts) := Provider.gives_ofTable facts
  obtain ⟨hmeaning, hsound, horder⟩ := execute_meaning true [] e rule () hp trivial rfl
  have hget : e.conditions.get? "members" = some (.group .any (heading 1) [leaf]) := rfl
  have hformula : e.expand [] rule.conditions =
      .group .all [.group .any [.comparison ⟨"not:equal", .bool false, "member", .null, none⟩],
        .not (.group .any [])] := by
    have hreference : e.expand [] (.reference reference) =
        e.expand ["members"] (.group .any (heading 1) [leaf]) :=
      expand_of_get? List.not_mem_nil hget
    rw [expand, List.map_cons, List.map_cons, hreference, expand, expand, expand, List.map_cons,
      expand]
    rfl
  rw [hformula] at hmeaning hsound
  refine ⟨hp, rfl, ?_, fun report report' => ?_⟩
  · obtain ⟨report, hreport⟩ := hsound (by rfl)
    obtain ⟨verdict, hresult, hverdict⟩ := hmeaning report hreport
    exact ⟨report, hreport, hresult.trans (hverdict.symm.trans rfl)⟩
  · refine horder hp trivial rfl (.refl e) (.group 7 ?_ (.swap _ _ [])) report report'
    exact .cons (.reference (some 3)) (.cons (.refl nobody) .nil)

end Engine
end Verdict
