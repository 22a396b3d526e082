import Verdict.Proofs.Evaluation.Meaning

/-!
# Which rules fail

The formula of a condition says which verdict a rule can give, not whether it gives one: a fault
counts only where it is met, and the priorities decide what is met. The decision on a condition
takes them into account. The order inside groups still has no part in it, since the conditions of
one priority all run, whatever the others among them decide.
-/
namespace Verdict
open Verdict.Action Verdict.Condition

variable {σ α β : Type} {I : σ → Prop}

/-- The action gives that verdict, or fails if there is none. -/
def Action.Decides (I : σ → Prop) (decision : Option Bool) (x : Action σ (Bool × α)) : Prop :=
  Ensures I (fun v => decision = some v.1) (fun _ => decision = none) x

namespace Schedule
variable {neutral : Bool} {votes votes' : List (Int64 × Option Bool)}

/-- A task fails, and every task of higher priority is neutral. -/
def fails (neutral : Bool) (votes : List (Int64 × Option Bool)) : Bool :=
  votes.any fun v => v.2.isNone && votes.all fun w => decide (w.1 ≤ v.1) || w.2 == some neutral

/-- The decision on tasks with these priorities and decisions. A fault counts if every task of
higher priority is neutral, even beside a task that decides. -/
def judge (neutral : Bool) (votes : List (Int64 × Option Bool)) : Option Bool :=
  if fails neutral votes then none
  else if votes.all (·.2 == some neutral) then some neutral
  else some !neutral

theorem fails_iff : fails neutral votes ↔
    ∃ v ∈ votes, v.2 = none ∧ ∀ w ∈ votes, v.1 < w.1 → w.2 = some neutral := by
  simp [fails, Decidable.or_iff_not_imp_left, Int64.not_le]

theorem judge_perm (h : votes.Perm votes') : judge neutral votes = judge neutral votes' := by
  have hfails : fails neutral votes = fails neutral votes' := by
    simp only [fails, h.any_eq, h.all_eq]
  rw [judge, judge, hfails, h.all_eq]

theorem judge_of_neutral (h : ∀ v ∈ votes, v.2 = some neutral) :
    judge neutral votes = some neutral := by
  rw [judge, if_neg, if_pos (by simpa using h)]
  rw [fails_iff]
  rintro ⟨v, hv, hfault, -⟩
  rw [h v hv] at hfault
  cases hfault

theorem judge_of_decisive {v : Int64 × Option Bool} (hv : v ∈ votes)
    (hdecisive : v.2 = some !neutral) (hsound : ∀ w ∈ votes, v.1 ≤ w.1 → w.2 ≠ none) :
    judge neutral votes = some !neutral := by
  rw [judge, if_neg, if_neg]
  · intro hneutral
    have hboth := hdecisive.symm.trans (by simpa using List.all_eq_true.1 hneutral v hv)
    simp at hboth
  · rw [fails_iff]
    rintro ⟨w, hw, hfault, habove⟩
    refine hsound w hw (Int64.not_lt.1 fun hlt => ?_) hfault
    have hboth := hdecisive.symm.trans (habove v hv hlt)
    simp at hboth

/-- What is left of tasks that ran as `decision` says is what is judged of them. -/
theorem judge_of_finished {l : List α} {task : α → Task σ β} {decision : α → Option Bool}
    {verdict : Bool} {slots : List (Slot σ β)}
    (h : Finished neutral (l.map task)
      (fun i v => ∃ a, l[i]? = some a ∧ decision a = some v.1) verdict slots) :
    judge neutral (l.map fun a => ((task a).priority, decision a)) = some verdict := by
  have htask {i : Nat} {a : α} (ha : l[i]? = some a) : (l.map task)[i]? = some (task a) := by
    rw [List.getElem?_map, ha, Option.map_some]
  rcases h with ⟨rfl, hdue⟩ | ⟨rfl, p, hstopped⟩
  · refine judge_of_neutral fun v hv => ?_
    obtain ⟨a, ha, rfl⟩ := List.mem_map.1 hv
    obtain ⟨i, hi⟩ := List.getElem?_of_mem ha
    obtain ⟨slot, -, -, hran⟩ := hdue.slot (htask hi)
    obtain ⟨b, -, a', ha', hdecision⟩ := hran List.not_mem_nil
    rwa [Option.some.inj (hi.symm.trans ha')]
  · obtain ⟨i, t, slot, ht, rfl, -, b, -, a, ha, hdecision⟩ := hstopped.decisive
    obtain rfl := Option.some.inj (ht.symm.trans (htask ha))
    refine judge_of_decisive (List.mem_map_of_mem (List.mem_of_getElem? ha)) hdecision ?_
    intro w hw hle
    obtain ⟨a', ha', rfl⟩ := List.mem_map.1 hw
    obtain ⟨j, hj⟩ := List.getElem?_of_mem ha'
    obtain ⟨slot', -, habove, hat, -⟩ := hstopped.slot (htask hj)
    have hran : ∃ verdict, slot'.Ran
        (fun v => ∃ a, l[j]? = some a ∧ decision a = some v.1) verdict := by
      rcases Int64.le_iff_lt_or_eq.1 hle with hlt | he
      · exact ⟨neutral, habove hlt⟩
      · exact hat he.symm
    obtain ⟨verdict, b', -, a'', ha'', hsome⟩ := hran
    rw [Option.some.inj (hj.symm.trans ha''), hsome]
    exact Option.some_ne_none verdict

/-- Tasks that give their decisions give together what is judged of them. -/
theorem decides_run {l : List α} {task : α → Task σ β} {decision : α → Option Bool}
    (h : ∀ a ∈ l, Decides I (decision a) (task a).run) :
    Decides I (judge neutral (l.map fun a => ((task a).priority, decision a)))
      (run neutral (l.map task)) := by
  have hrun (i : Nat) (t : Task σ β) (ht : (l.map task)[i]? = some t)
      (hmay : MayRun neutral (l.map task)
        (fun i v => ∃ a, l[i]? = some a ∧ decision a = some v.1) t) :
      Ensures I (fun v => ∃ a, l[i]? = some a ∧ decision a = some v.1)
        (fun _ => judge neutral (l.map fun a => ((task a).priority, decision a)) = none) t.run := by
    rw [List.getElem?_map, Option.map_eq_some_iff] at ht
    obtain ⟨a, ha, rfl⟩ := ht
    have hmem : a ∈ l := List.mem_of_getElem? ha
    refine (h a hmem).mono (fun v hv => ⟨a, ha, hv⟩) fun _ hfault => if_pos (fails_iff.2 ?_)
    refine ⟨_, List.mem_map_of_mem hmem, hfault, fun w hw hlt => ?_⟩
    obtain ⟨above, habove, rfl⟩ := List.mem_map.1 hw
    obtain ⟨j, hj⟩ := List.getElem?_of_mem habove
    obtain ⟨_, above', habove', hneutral⟩ :=
      hmay j (task above) (by rw [List.getElem?_map, hj, Option.map_some]) hlt
    rw [Option.some.inj (hj.symm.trans habove')]
    exact hneutral
  refine (ensures_run hrun).mono (fun v hv => ?_) fun _ hfault => hfault
  obtain ⟨slots, hfinished, -⟩ := hv
  exact judge_of_finished hfinished

end Schedule

namespace Engine

/-- The decision on a condition inside the chain, by the priorities of conditions and the decisions
on comparisons: its verdict, or none if evaluating it fails. -/
def decision (e : Engine) (priority : Condition → Int64) (test : Comparison → Option Bool)
    (chain : List String) (c : Condition) : Option Bool :=
  match c with
  | .group q _ cs =>
    Schedule.judge q.neutral (cs.map fun c => (priority c, decision e priority test chain c))
  | .not _ c => Kleene.not (decision e priority test chain c)
  | .leaf l => test l.comparison
  | .reference r =>
    if _hnew : r.condition ∈ chain then none
    else
      match _hget : e.conditions.get? r.condition with
      | some stored => decision e priority test (chain ++ [r.condition]) (realize stored r)
      | none => if e.policy.allowUndefinedConditions then some false else none
termination_by ((e.unexpanded chain).length, sizeOf c)
decreasing_by
  · apply Prod.Lex.right
    have := List.sizeOf_lt_of_mem ‹_›
    rw [group.sizeOf_spec]
    omega
  · apply Prod.Lex.right
    rw [not.sizeOf_spec]
    omega
  · apply Prod.Lex.left
    exact e.unexpanded_append_lt _hnew _hget

variable {e e' : Engine} {priority : Condition → Int64} {test : Comparison → Option Bool}
variable {chain : List String} {ref : Reference}

theorem decision_of_mem (h : ref.condition ∈ chain) :
    e.decision priority test chain (.reference ref) = none := by
  rw [decision, dif_pos h]

theorem decision_of_get? {stored : Condition} (hnew : ref.condition ∉ chain)
    (h : e.conditions.get? ref.condition = some stored) :
    e.decision priority test chain (.reference ref) =
      e.decision priority test (chain ++ [ref.condition]) (realize stored ref) := by
  rw [decision, dif_neg hnew]
  split
  · rename_i stored' h'
    rw [Option.some.inj (h.symm.trans h')]
  · rename_i h'
    rw [h] at h'
    cases h'

theorem decision_of_get?_eq_none (hnew : ref.condition ∉ chain)
    (h : e.conditions.get? ref.condition = none) :
    e.decision priority test chain (.reference ref) =
      if e.policy.allowUndefinedConditions then some false else none := by
  rw [decision, dif_neg hnew]
  split
  · rename_i stored h'
    rw [h] at h'
    cases h'
  · rfl

variable {p : Provider σ} {r : Registry} {answers : Answers}

theorem decides_evaluate (hp : p.Gives I answers)
    (hpriority : ∀ s, I s → effectivePriority p s = priority) (e : Engine) (chain : List String)
    (c : Condition) :
    Decides (World.Extends r I) (e.decision priority (Comparison.test r answers) chain c)
      (e.evaluate p chain c) := by
  unfold Decides
  induction chain, c using Engine.evaluate.induct e with
  | case1 chain q h cs ih =>
    rw [evaluate, decision]
    refine Ensures.state.bind fun w hw => ?_
    rw [hpriority w.facts hw.facts]
    let task (c : Condition) : Task (World σ) Condition := ⟨priority c, c, e.evaluate p chain c⟩
    have hrun : ∀ c ∈ cs, Decides (World.Extends r I)
        (e.decision priority (Comparison.test r answers) chain c) (task c).run := ih
    exact Ensures.bind (Schedule.decides_run hrun) fun v hv => Ensures.pure hv
  | case2 chain h c ih =>
    rw [evaluate, decision]
    refine (ih.mono (fun _ hv => hv) fun _ hfault => ?_).bind fun v hv => Ensures.pure ?_
    · rw [hfault]
      rfl
    · rw [hv]
      rfl
  | case3 chain l =>
    rw [evaluate, decision]
    exact (ensures_observe hp l).bind fun o ho => Ensures.pure ho
  | case4 chain ref hmem =>
    rw [evaluate_of_mem hmem]
    exact decision_of_mem hmem
  | case5 chain ref hnew stored hget ih =>
    rw [evaluate_of_get? hnew hget, decision_of_get? hnew hget]
    exact ih
  | case6 chain ref hnew hget hallow =>
    rw [evaluate_of_get?_eq_none hnew hget, decision_of_get?_eq_none hnew hget, if_pos hallow,
      if_pos hallow]
    exact Ensures.pure rfl
  | case7 chain ref hnew hget hallow =>
    rw [evaluate_of_get?_eq_none hnew hget, decision_of_get?_eq_none hnew hget, if_neg hallow,
      if_neg hallow]
    exact rfl

end Engine

/-! The order inside groups. -/

mutual

/-- The conditions differ only in the order inside groups. -/
inductive Condition.Shuffled : Condition → Condition → Prop
  | group {q : Quantifier} {h : Heading} {cs ds ds' : List Condition} (hcs : ShuffledAll cs ds)
      (hperm : ds.Perm ds') : Shuffled (.group q h cs) (.group q h ds')
  | not {h : Heading} {c c' : Condition} (hc : Shuffled c c') : Shuffled (.not h c) (.not h c')
  | reference {r : Reference} : Shuffled (.reference r) (.reference r)
  | leaf {l : Leaf} : Shuffled (.leaf l) (.leaf l)

inductive Condition.ShuffledAll : List Condition → List Condition → Prop
  | nil : ShuffledAll [] []
  | cons {c c' : Condition} {cs cs' : List Condition} (hc : Shuffled c c')
      (hcs : ShuffledAll cs cs') : ShuffledAll (c :: cs) (c' :: cs')

end

/-- The stored conditions differ only in the order inside groups, and the policy for those that are
not there is the same. -/
structure Engine.Shuffled (e e' : Engine) : Prop where
  allowUndefinedConditions :
    e'.policy.allowUndefinedConditions = e.policy.allowUndefinedConditions
  none_iff : ∀ name, e'.conditions.get? name = none ↔ e.conditions.get? name = none
  stored : ∀ {name c c'}, e.conditions.get? name = some c → e'.conditions.get? name = some c' →
    c.Shuffled c'

namespace Condition
variable {c c' : Condition} {cs ds : List Condition}

mutual

theorem Shuffled.refl : ∀ c : Condition, c.Shuffled c
  | .group _ _ cs => .group (ShuffledAll.refl cs) (.refl cs)
  | .not _ c => .not (Shuffled.refl c)
  | .reference _ => .reference
  | .leaf _ => .leaf

theorem ShuffledAll.refl : ∀ cs : List Condition, ShuffledAll cs cs
  | [] => .nil
  | c :: cs => .cons (Shuffled.refl c) (ShuffledAll.refl cs)

end

mutual

theorem Shuffled.clear : ∀ {c c' : Condition}, c.Shuffled c' → c.clear.Shuffled c'.clear
  | _, _, .group hcs hperm =>
    .group hcs.clearAll (by simpa only [clearAll_eq_map] using hperm.map Condition.clear)
  | _, _, .not hc => .not hc.clear
  | _, _, .reference => .reference
  | _, _, .leaf => .leaf

theorem ShuffledAll.clearAll : ∀ {cs ds : List Condition}, ShuffledAll cs ds →
    ShuffledAll (Condition.clearAll cs) (Condition.clearAll ds)
  | _, _, .nil => .nil
  | _, _, .cons hc hcs => .cons hc.clear hcs.clearAll

end

theorem Shuffled.inherit (h : c.Shuffled c') (r : Reference) :
    (c.inherit r).Shuffled (c'.inherit r) := by
  cases h with
  | group hcs hperm => exact .group hcs hperm
  | not hc => exact .not hc
  | reference => exact .reference
  | leaf => exact .leaf

theorem Shuffled.realize (h : c.Shuffled c') (r : Reference) :
    (Engine.realize c r).Shuffled (Engine.realize c' r) := h.clear.inherit r

theorem Shuffled.effectivePriority_eq (h : c.Shuffled c') (p : Provider σ) (s : σ) :
    effectivePriority p s c = effectivePriority p s c' := by
  cases h <;> rfl

theorem ShuffledAll.map_eq {γ : Type} {f g : Condition → γ} (h : ShuffledAll cs ds)
    (hfg : ∀ c ∈ cs, ∀ c', c.Shuffled c' → f c = g c') : cs.map f = ds.map g := by
  induction cs generalizing ds with
  | nil =>
    cases h
    rfl
  | cons c cs ih =>
    cases h with
    | cons hc hcs =>
      rw [List.map_cons, List.map_cons, hfg c List.mem_cons_self _ hc,
        ih hcs fun c hc => hfg c (List.mem_cons_of_mem _ hc)]

end Condition

namespace Engine
variable {e e' : Engine} {p : Provider σ} {r : Registry} {answers : Answers}

theorem decision_eq_of_shuffled (he : e.Shuffled e') {priority : Condition → Int64}
    (hpriority : ∀ c c', c.Shuffled c' → priority c = priority c')
    (test : Comparison → Option Bool) (chain : List String) {c c' : Condition}
    (hc : c.Shuffled c') :
    e.decision priority test chain c = e'.decision priority test chain c' := by
  induction chain, c using Engine.decision.induct (e := e) generalizing c' with
  | case1 chain q h cs ih =>
    cases hc with
    | @group _ _ _ ds ds' hcs hperm =>
      rw [decision, decision]
      have hmap := hcs.map_eq (f := fun c => (priority c, e.decision priority test chain c))
        (g := fun c => (priority c, e'.decision priority test chain c)) fun c hmem c' hc =>
          Prod.ext (hpriority c c' hc) (ih c hmem hc)
      rw [hmap]
      exact Schedule.judge_perm (hperm.map _)
  | case2 chain h c ih =>
    cases hc with
    | not hc => rw [decision, decision, ih hc]
  | case3 chain l =>
    cases hc
    rw [decision, decision]
  | case4 chain ref hmem =>
    cases hc
    rw [decision_of_mem hmem, decision_of_mem hmem]
  | case5 chain ref hnew stored hget ih =>
    cases hc
    cases hget' : e'.conditions.get? ref.condition with
    | none => simp [(he.none_iff _).1 hget'] at hget
    | some stored' =>
      rw [decision_of_get? hnew hget, decision_of_get? hnew hget']
      exact ih ((he.stored hget hget').realize ref)
  | case6 chain ref hnew hget =>
    cases hc
    have hget' := (he.none_iff _).2 hget
    rw [decision_of_get?_eq_none hnew hget, decision_of_get?_eq_none hnew hget',
      he.allowUndefinedConditions]
  | case7 chain ref hnew hget =>
    cases hc
    have hget' := (he.none_iff _).2 hget
    rw [decision_of_get?_eq_none hnew hget, decision_of_get?_eq_none hnew hget',
      he.allowUndefinedConditions]

/-- A rule gives the decision on its conditions, and fails just if there is none. -/
theorem decides_execute (hp : p.Gives I answers) {priority : Condition → Int64}
    (hpriority : ∀ s, I s → effectivePriority p s = priority) (e : Engine)
    (hreplace : e.policy.replaceFactsInEventParams = false) (rule : Rule) :
    Ensures (World.Extends r I)
      (fun report => ∃ verdict, report.result = some verdict ∧
        e.decision priority (Comparison.test r answers) [] rule.conditions = some verdict)
      (fun _ => e.decision priority (Comparison.test r answers) [] rule.conditions = none)
      (e.execute p rule) := by
  refine Ensures.bind (decides_evaluate hp hpriority e [] rule.conditions) fun v hv => ?_
  simp only [hreplace]
  exact ⟨v.1, rfl, hv⟩

/-- The order inside groups, in the rule and in the stored conditions, decides neither whether a
rule fails nor which verdict it gives. -/
theorem execute_shuffled (defaults : Bool) (calls : List Registry.Call) (he : e.Shuffled e')
    (rule rule' : Rule) (hrule : rule.conditions.Shuffled rule'.conditions)
    (hp : p.Gives I answers)
    (hpriority : ∀ s s', I s → I s' → p.factPriority s = p.factPriority s')
    (facts facts' : σ) (hfacts : I facts) (hfacts' : I facts')
    (hreplace : e.policy.replaceFactsInEventParams = false)
    (hreplace' : e'.policy.replaceFactsInEventParams = false) :
    let operators := Registry.run defaults calls
    let outcome := ((e.execute p rule).run ⟨operators, facts⟩).1
    let outcome' := ((e'.execute p rule').run ⟨operators, facts'⟩).1
    ((∃ report, outcome = .ok report) ↔ ∃ report', outcome' = .ok report') ∧
      ∀ report report', outcome = .ok report → outcome' = .ok report' →
        ∃ verdict, report.result = some verdict ∧ report'.result = some verdict := by
  intro operators outcome outcome'
  let priority := effectivePriority p facts
  have hconstant (s : σ) (hs : I s) : effectivePriority p s = priority := by
    funext c
    cases c with
    | leaf l => simp only [priority, effectivePriority, hpriority s facts hs hfacts]
    | _ => rfl
  have hoperators : Registry.Coherent operators.operators operators :=
    (Registry.wellNamed_run defaults calls).coherent
  have hmeets : Meets _ _ outcome :=
    ((decides_execute hp hconstant e hreplace rule).run ⟨hoperators, rfl, hfacts⟩).1
  have hmeets' : Meets _ _ outcome' :=
    ((decides_execute hp hconstant e' hreplace' rule').run ⟨hoperators, rfl, hfacts'⟩).1
  rw [← decision_eq_of_shuffled he (fun c c' hc => hc.effectivePriority_eq p facts) _ [] hrule]
    at hmeets'
  cases h : outcome with
  | ok report =>
    obtain ⟨verdict, hresult, hdecision⟩ := hmeets.of_eq_ok h
    cases h' : outcome' with
    | ok report' =>
      obtain ⟨verdict', hresult', hdecision'⟩ := hmeets'.of_eq_ok h'
      obtain rfl := Option.some.inj (hdecision.symm.trans hdecision')
      refine ⟨⟨fun _ => ⟨report', rfl⟩, fun _ => ⟨report, rfl⟩⟩, fun _ _ heq heq' => ?_⟩
      cases heq
      cases heq'
      exact ⟨verdict, hresult, hresult'⟩
    | error fault' =>
      have hnone := hmeets'.of_eq_error h'
      rw [hdecision] at hnone
      cases hnone
  | error fault =>
    have hnone := hmeets.of_eq_error h
    cases h' : outcome' with
    | ok report' =>
      obtain ⟨verdict', -, hdecision'⟩ := hmeets'.of_eq_ok h'
      rw [hnone] at hdecision'
      cases hdecision'
    | error fault' => simp

/-- Age is asked first, so a missing membership does no harm, wherever it stands. -/
theorem execute_shuffled_admission :
    let facts : Table Json := .ofList [("age", .ofInt64 20)]
    let p : Provider Unit := .ofTable facts
    let heading : Heading := ⟨1, none, .empty⟩
    let age : Condition := .leaf
      { Leaf.ofComparison "age" "not:lessThan" (.ofInt64 18) with priority := some 2 }
    let member : Condition := .leaf (.ofComparison "member" "equal" (.bool true))
    let engine (known : List Condition) : Engine :=
      ⟨.ofList [("known", .group .any heading known)], {}⟩
    let reference : Reference := ⟨"known", none, none, .empty⟩
    let known : Condition := .reference reference
    let nobody : Condition := .not heading (.group .any heading [])
    let rule (conditions : List Condition) : Rule :=
      ⟨none, 1, .group .all heading conditions, ⟨"admit", none⟩⟩
    let outcome (members conditions : List Condition) :=
      (((engine members).execute p (rule conditions)).run ⟨Registry.run true [], ()⟩).1
    (∃ report, outcome [member, age] [known, nobody] = .ok report ∧ report.result = some true) ∧
      ∃ report, outcome [age, member] [nobody, known] = .ok report ∧ report.result = some true := by
  intro facts p heading age member engine reference known nobody rule outcome
  have hp : p.Gives (fun _ => True) (.ofTable facts) := Provider.gives_ofTable facts
  have hget (members : List Condition) (name : String) : (engine members).conditions.get? name =
      if name = "known" then some (.group .any heading members) else none :=
    Table.get?_insert .empty name "known" _
  have hmembers : (Condition.group .any heading [member, age]).Shuffled
      (.group .any heading [age, member]) := .group (.refl _) (.swap _ _ _)
  have hengine : (engine [member, age]).Shuffled (engine [age, member]) := by
    refine ⟨rfl, fun name => ?_, fun {name c c'} h h' => ?_⟩
    · rw [hget, hget]
      split <;> simp
    · rw [hget] at h h'
      by_cases hname : name = "known"
      · rw [if_pos hname] at h h'
        cases h
        cases h'
        exact hmembers
      · rw [if_neg hname] at h
        cases h
  obtain ⟨hends, hverdict⟩ := execute_shuffled true [] hengine (rule [known, nobody])
    (rule [nobody, known]) (.group (.refl _) (.swap _ _ _)) hp (fun _ _ _ _ => rfl) () ()
    trivial trivial rfl rfl
  let test := Comparison.test (Registry.run true []) (.ofTable facts)
  have hdecision : (engine [member, age]).decision (effectivePriority p ()) test []
      (.group .all heading [known, nobody]) = some true := by
    have hknown : (engine [member, age]).decision (effectivePriority p ()) test [] known =
        (engine [member, age]).decision (effectivePriority p ()) test ["known"]
          (.group .any heading [member, age]) := by
      have hnew : reference.condition ∉ ([] : List String) := List.not_mem_nil
      exact decision_of_get? hnew ((hget [member, age] "known").trans (if_pos rfl))
    rw [decision, List.map_cons, List.map_cons, hknown, decision, decision, decision,
      List.map_cons, List.map_cons, decision, decision]
    decide +kernel
  have hpriority (s : Unit) (_ : True) : effectivePriority p s = effectivePriority p () := rfl
  have hmeets : Meets _ _ (outcome [member, age] [known, nobody]) :=
    ((decides_execute (r := Registry.run true []) hp hpriority (engine [member, age]) rfl
      (rule [known, nobody])).run ⟨(Registry.wellNamed_run true []).coherent, rfl, trivial⟩).1
  cases h : outcome [member, age] [known, nobody] with
  | error fault =>
    have hnone := hdecision.symm.trans (hmeets.of_eq_error h)
    cases hnone
  | ok report =>
    obtain ⟨verdict, hresult, hsome⟩ := hmeets.of_eq_ok h
    obtain rfl := Option.some.inj (hdecision.symm.trans hsome)
    obtain ⟨report', h'⟩ := hends.1 ⟨report, h⟩
    obtain ⟨verdict, hfirst, hsecond⟩ := hverdict report report' h h'
    exact ⟨⟨report, rfl, hresult⟩, report', h', hsecond.trans (hfirst.symm.trans hresult)⟩

end Engine
end Verdict
