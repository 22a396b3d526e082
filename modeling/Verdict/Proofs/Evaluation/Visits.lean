import Mathlib.Data.List.Forall2
import Verdict.Proofs.Condition.Inheritance
import Verdict.Proofs.Evaluation.Inquiries
import Verdict.Proofs.Evaluation.Record
import Verdict.Proofs.Evaluation.Sight

/-!
# What an evaluation visits

A member of a group is evaluated just if all members of higher priority were and gave the neutral
verdict. What is not evaluated stays as it is, and nothing is asked for it: all that is asked of the
provider are the value and the fact of each comparison that is made.
-/
namespace Verdict
open Verdict.Action Verdict.Condition

namespace Condition
variable {σ : Type}

/-- The priority of a condition in its group: its own, else for a comparison that of its fact, which
the provider gives in this state, else 1. -/
inductive HasPriority (p : Provider σ) (facts : σ) : Condition → Int64 → Prop
  | group {q : Quantifier} {h : Heading} {cs : List Condition} :
      HasPriority p facts (.group q h cs) h.priority
  | not {h : Heading} {c : Condition} : HasPriority p facts (.not h c) h.priority
  | reference {r : Reference} : HasPriority p facts (.reference r) (r.priority.getD 1)
  | own {l : Leaf} {priority : Int64} (hown : l.priority = some priority) :
      HasPriority p facts (.leaf l) priority
  | fact {l : Leaf} {priority : Int64} (hown : l.priority = none)
      (hfact : p.factPriority facts l.fact = some priority) : HasPriority p facts (.leaf l) priority
  | absent {l : Leaf} (hown : l.priority = none) (hfact : p.factPriority facts l.fact = none) :
      HasPriority p facts (.leaf l) 1

theorem hasPriority_effectivePriority (p : Provider σ) (facts : σ) (c : Condition) :
    HasPriority p facts c (c.effectivePriority p facts) := by
  cases c with
  | group q h cs => exact .group
  | not h c => exact .not
  | reference r => exact .reference
  | leaf l =>
    cases hown : l.priority with
    | some priority =>
      rw [effectivePriority, hown]
      exact .own hown
    | none =>
      rw [effectivePriority, hown, Option.none_or]
      cases hfact : p.factPriority facts l.fact with
      | some priority => exact .fact hown hfact
      | none => exact .absent hown hfact

/-- The second condition is the first without what is recorded in it. -/
inductive Unrecorded : Condition → Condition → Prop
  | group {q : Quantifier} {h : Heading} {cs cs' : List Condition}
      (hlength : cs'.length = cs.length)
      (hmembers : ∀ (i : Nat) (c c' : Condition), cs[i]? = some c → cs'[i]? = some c' →
        Unrecorded c c') :
      Unrecorded (.group q h cs) (.group q h cs')
  | not {h : Heading} {c c' : Condition} (hc : Unrecorded c c') : Unrecorded (.not h c) (.not h c')
  | reference {r : Reference} : Unrecorded (.reference r) (.reference r)
  | leaf {l : Leaf} : Unrecorded (.leaf l) (.leaf { l with observation := none })

theorem unrecorded_clear (c : Condition) : Unrecorded c c.clear := by
  cases c with
  | group q h cs =>
    rw [clear, clearAll_eq_map]
    apply Unrecorded.group (List.length_map clear)
    intro i c c' hc hc'
    rw [List.getElem?_map, hc] at hc'
    cases hc'
    have hlt := List.sizeOf_lt_of_mem (List.mem_of_getElem? hc)
    exact unrecorded_clear c
  | not h c =>
    rw [clear]
    exact .not (unrecorded_clear c)
  | reference r => exact .reference
  | leaf l => exact .leaf
termination_by sizeOf c
decreasing_by
  · rw [group.sizeOf_spec]
    omega
  · rw [not.sizeOf_spec]
    omega

/-- The second table has the entries of the first, and those of the third under other keys. -/
def Extended (extra extra' more : Table Json) : Prop :=
  ∀ key, extra'.get? key = (extra.get? key).or (more.get? key)

/-- The second condition is the first with the metadata of the reference where it has none of its
own: the name, other members, and, but for groups and negations, which always have one, the
priority. -/
inductive Inherits (r : Reference) : Condition → Condition → Prop
  | group {q : Quantifier} {h : Heading} {cs : List Condition} {extra : Table Json}
      (hextra : Extended h.extra extra r.extra) :
      Inherits r (.group q h cs) (.group q ⟨h.priority, h.name.or r.name, extra⟩ cs)
  | not {h : Heading} {c : Condition} {extra : Table Json}
      (hextra : Extended h.extra extra r.extra) :
      Inherits r (.not h c) (.not ⟨h.priority, h.name.or r.name, extra⟩ c)
  | reference {r' : Reference} {extra : Table Json} (hextra : Extended r'.extra extra r.extra) :
      Inherits r (.reference r')
        (.reference ⟨r'.condition, r'.name.or r.name, r'.priority.or r.priority, extra⟩)
  | leaf {l : Leaf} {extra : Table Json} (hextra : Extended l.extra extra r.extra) :
      Inherits r (.leaf l) (.leaf { l with
        name := l.name.or r.name
        priority := l.priority.or r.priority
        extra })

theorem inherits_inherit (c : Condition) (r : Reference) : Inherits r c (c.inherit r) := by
  cases c with
  | group q h cs => exact .group (Table.get?_addMissing h.extra r.extra)
  | not h c => exact .not (Table.get?_addMissing h.extra r.extra)
  | reference r' => exact .reference (Table.get?_addMissing r'.extra r.extra)
  | leaf l => exact .leaf (Table.get?_addMissing l.extra r.extra)

end Condition

/-- The account of an evaluation inside the chain: the condition before, the verdict, the condition
afterwards, what was seen, and the comparisons that were made, with what was recorded of them. The
members of a group are ranked by the priorities that they have in the state in which the group was
visited. -/
inductive Engine.Visits {σ : Type} (e : Engine) (p : Provider σ) :
    List String → Condition → Bool → Condition → Sight σ → List Leaf → Prop
  | group {chain : List String} {q : Quantifier} {h : Heading} {cs cs' : List Condition}
      {facts : σ} {sights : List (Sight σ)} {priorities : List Int64}
      {verdicts : List (Option Bool)} {verdict : Bool} (part : Nat → List Leaf)
      (hlength : cs'.length = cs.length) (hsights : sights.length = cs.length)
      (hpriorities : List.Forall₂ (HasPriority p facts) cs priorities)
      (hcourse : Schedule.Course q.neutral priorities verdicts verdict)
      (hvisited : ∀ (i : Nat) (c c' : Condition) (sight : Sight σ) (b : Bool), cs[i]? = some c →
        cs'[i]? = some c' → sights[i]? = some sight → verdicts[i]? = some (some b) →
        Visits e p chain c b c' sight (part i))
      (hleft : ∀ (i : Nat) (c c' : Condition), cs[i]? = some c → cs'[i]? = some c' →
        verdicts[i]? = some none → c' = c ∧ part i = []) :
      Visits e p chain (.group q h cs) verdict (.group q h cs') (.group facts sights)
        ((List.range cs.length).flatMap part)
  | not {chain : List String} {h : Heading} {c c' : Condition} {verdict : Bool} {sight : Sight σ}
      {made : List Leaf} (hc : Visits e p chain c verdict c' sight made) :
      Visits e p chain (.not h c) (!verdict) (.not h c') sight made
  | leaf {chain : List String} {l : Leaf} (o : Observation) :
      Visits e p chain (.leaf l) o.result (.leaf { l with observation := some o }) .nothing
        [{ l with observation := some o }]
  | expanded {chain : List String} {ref : Reference} {stored bare c c' : Condition}
      {verdict : Bool} {sight : Sight σ} {made : List Leaf} (hnew : ref.condition ∉ chain)
      (hget : e.conditions.get? ref.condition = some stored) (hbare : Unrecorded stored bare)
      (hinherits : Inherits ref bare c)
      (hc : Visits e p (chain ++ [ref.condition]) c verdict c' sight made) :
      Visits e p chain (.reference ref) verdict c' sight made
  | missing {chain : List String} {ref : Reference} (hnew : ref.condition ∉ chain)
      (hget : e.conditions.get? ref.condition = none)
      (hallow : e.policy.allowUndefinedConditions) :
      Visits e p chain (.reference ref) false
        (.reference { ref with extra := ref.extra.insert "result" (.bool false) }) .nothing []

namespace Engine
variable {σ : Type} {I : σ → Prop} {meter : σ → Nat} {cost : Inquiry → Nat} {p : Provider σ}
variable {e : Engine}

/-- Some account of the evaluation fits, and the comparisons that were made cost that much. -/
def Accounts (e : Engine) (p : Provider σ) (cost : Inquiry → Nat) (chain : List String)
    (c : Condition) (v : Bool × Condition × Sight σ) (d : Nat) : Prop :=
  ∃ made, e.Visits p chain c v.1 v.2.1 v.2.2 made ∧ d = Leaf.costs cost made

/-- In the end a member waits and nothing was compared for it, or it was visited. -/
def Attended (e : Engine) (p : Provider σ) (chain : List String) (facts : σ) (c : Condition)
    (part : List Leaf) (slot : Slot (World σ) (Condition × Sight σ)) : Prop :=
  (slot = .waiting (e.sightedTask p chain facts c) ∧ part = []) ∨
    ∃ b a, slot = .settled b a ∧ e.Visits p chain c b a.1 a.2 part

section
variable {chain : List String} {q : Quantifier} {cs : List Condition} {facts : σ}
variable {slots : List (Slot (World σ) (Condition × Sight σ))}

/-- The bill of a member pays for the comparisons that were made for it. -/
theorem exists_part {i d : Nat} (hlength : slots.length = cs.length)
    (hspent : ∀ slot', slots[i]? = some slot' → ∀ slot,
      ((cs.map (e.sightedTask p chain facts)).map Slot.waiting)[i]? = some slot →
        Slot.Spent (fun v d => ∀ c, cs[i]? = some c → e.Accounts p cost chain c v d)
          slot slot' d) :
    ∃ part, ∀ c slot, cs[i]? = some c → slots[i]? = some slot →
      d = Leaf.costs cost part ∧ e.Attended p chain facts c part slot := by
  by_cases hi : i < cs.length
  · have hc := List.getElem?_eq_getElem hi
    have hslot := List.getElem?_eq_getElem (hlength.symm ▸ hi : i < slots.length)
    have hwaiting : ((cs.map (e.sightedTask p chain facts)).map Slot.waiting)[i]? =
        some (.waiting (e.sightedTask p chain facts cs[i])) := by simp [hi]
    obtain ⟨he, hd⟩ | ⟨t, b, a, -, he, hQ⟩ := hspent _ hslot _ hwaiting
    · refine ⟨[], fun c slot hc' hslot' => ?_⟩
      obtain rfl := Option.some.inj (hc.symm.trans hc')
      obtain rfl := Option.some.inj (hslot.symm.trans hslot')
      exact ⟨hd, .inl ⟨he, rfl⟩⟩
    · obtain ⟨made, hvisits, hd⟩ := hQ _ hc
      refine ⟨made, fun c slot hc' hslot' => ?_⟩
      obtain rfl := Option.some.inj (hc.symm.trans hc')
      obtain rfl := Option.some.inj (hslot.symm.trans hslot')
      exact ⟨hd, .inr ⟨b, a, he, hvisits⟩⟩
  · refine ⟨[], fun c slot hc' => ?_⟩
    exact absurd (List.getElem?_eq_some_iff.1 hc').1 hi

/-- A group was visited as its members were. -/
theorem visits_group {verdict : Bool} {part : Nat → List Leaf} (h : Heading)
    (hfinished : Schedule.Finished q.neutral (cs.map (e.sightedTask p chain facts))
      (fun _ _ => True) verdict slots)
    (hattended : ∀ i c slot, cs[i]? = some c → slots[i]? = some slot →
      e.Attended p chain facts c (part i) slot) :
    e.Visits p chain (.group q h cs) verdict
      (.group q h ((slots.map (·.subject)).map Prod.fst))
      (.group facts ((slots.map (·.subject)).map Prod.snd))
      ((List.range cs.length).flatMap part) := by
  have hcourse := hfinished.course
  rw [List.map_map] at hcourse
  have hlength : slots.length = cs.length := hfinished.length_eq.trans (List.length_map _)
  -- a member as it is left, and what was seen for it, are the subject of its slot
  have hslot {i : Nat} {c c' : Condition} (hc : cs[i]? = some c)
      (hc' : ((slots.map (·.subject)).map Prod.fst)[i]? = some c') :
      ∃ slot, slots[i]? = some slot ∧ slot.subject.1 = c' ∧
        e.Attended p chain facts c (part i) slot := by
    rw [List.map_map, List.getElem?_map, Option.map_eq_some_iff] at hc'
    obtain ⟨slot, hslot, hsubject⟩ := hc'
    exact ⟨slot, hslot, hsubject, hattended i c slot hc hslot⟩
  refine .group part (by simp [hlength]) (by simp [hlength]) ?_ hcourse ?_ ?_
  · rw [List.forall₂_map_right_iff, List.forall₂_same]
    exact fun c _ => hasPriority_effectivePriority p facts c
  · intro i c c' sight b hc hc' hsight hb
    obtain ⟨slot, hget, rfl, ⟨rfl, -⟩ | ⟨b', a, rfl, hvisits⟩⟩ := hslot hc hc'
    · rw [List.getElem?_map, hget] at hb
      cases hb
    · rw [List.getElem?_map, hget] at hb
      rw [List.map_map, List.getElem?_map, hget] at hsight
      cases hb
      cases hsight
      exact hvisits
  · intro i c c' hc hc' hnone
    obtain ⟨slot, hget, rfl, ⟨rfl, hnil⟩ | ⟨b', a, rfl, -⟩⟩ := hslot hc hc'
    · exact ⟨rfl, hnil⟩
    · rw [List.getElem?_map, hget] at hnone
      cases hnone

/-- A group's evaluation has an account of its cost, if its members' have. -/
theorem spends_sighted_group {h : Heading}
    (hmembers : ∀ c ∈ cs,
      World.Spends I meter (e.Accounts p cost chain c) (e.sighted p chain c)) :
    World.Spends I meter (e.Accounts p cost chain (.group q h cs))
      (e.sighted p chain (.group q h cs)) := by
  rw [sighted]
  refine CostsFrom.state fun w _ => ?_
  have hrun (i : Nat) (t : Task (World σ) (Condition × Sight σ))
      (ht : (cs.map (e.sightedTask p chain w.facts))[i]? = some t) :
      World.Spends I meter (fun v d => ∀ c, cs[i]? = some c → e.Accounts p cost chain c v d)
        t.run := by
    rw [List.getElem?_map, Option.map_eq_some_iff] at ht
    obtain ⟨c, hc, rfl⟩ := ht
    refine (hmembers c (List.mem_of_getElem? hc)).mono fun v d hv c' hc' => ?_
    exact Option.some.inj (hc.symm.trans hc') ▸ hv
  refine (Schedule.costs_run q.neutral hrun).bind ?_
  rintro v _ ⟨slots, hsubjects, hfinished, hlength, bills, rfl, hspent⟩
  simp only [List.length_map] at hlength
  obtain ⟨part, hpart⟩ := Classical.axiomOfChoice fun i => exists_part hlength (hspent i)
  have hvisits := visits_group h hfinished fun i c slot hc hslot => (hpart i c slot hc hslot).2
  refine costsFrom_pure ⟨_, hsubjects ▸ hvisits, ?_⟩
  rw [Leaf.costs_flatMap_range, List.length_map, List.length_map]
  refine total_congr fun i hi => ?_
  have hi' : i < slots.length := hlength.symm ▸ hi
  exact (hpart i _ _ (List.getElem?_eq_getElem hi) (List.getElem?_eq_getElem hi')).1

end

theorem spends_sighted (hp : p.Metered I meter cost) (e : Engine) (chain : List String)
    (c : Condition) :
    World.Spends I meter (e.Accounts p cost chain c) (e.sighted p chain c) := by
  induction chain, c using Engine.evaluate.induct e with
  | case1 chain q h cs ih => exact spends_sighted_group ih
  | case2 chain h c ih =>
    rw [sighted]
    refine ih.bind ?_
    rintro v d ⟨made, hvisits, hd⟩
    exact costsFrom_pure ⟨made, .not hvisits, hd⟩
  | case3 chain l =>
    rw [sighted]
    exact (Leaf.spends_observe hp l).bind fun o d hd => costsFrom_pure ⟨_, .leaf o, hd⟩
  | case4 chain ref hmem =>
    rw [sighted_of_mem hmem]
    exact costsFrom_fail _
  | case5 chain ref hnew stored hget ih =>
    rw [sighted_of_get? hnew hget]
    refine ih.mono ?_
    rintro v d ⟨made, hvisits, hd⟩
    exact ⟨made, .expanded hnew hget (unrecorded_clear stored) (inherits_inherit _ ref) hvisits, hd⟩
  | case6 chain ref hnew hget hallow =>
    rw [sighted_of_get?_eq_none hnew hget, if_pos hallow]
    exact costsFrom_pure ⟨[], .missing hnew hget hallow, rfl⟩
  | case7 chain ref hnew hget hallow =>
    rw [sighted_of_get?_eq_none hnew hget, if_neg hallow]
    exact costsFrom_fail _

/-- After its evaluation a report stays as it is but for its event, for whose parameters the
provider is asked if they are replaced. -/
theorem spends_reported (hp : p.Metered I meter cost) (e : Engine) (rule : Rule)
    (v : Bool × Condition) :
    World.Spends I meter
      (fun report d => report.conditions = v.2 ∧ report.result = some v.1 ∧
        d = Inquiry.costs cost
          (if e.policy.replaceFactsInEventParams then rule.event.inquiries else []))
      (if e.policy.replaceFactsInEventParams then World.onFacts ((reported rule v).resolveParams p)
        else pure (reported rule v)) := by
  split
  · refine World.spends_onFacts fun s hs => ?_
    have hcosts := (Report.costs_resolveParams hp (reported rule v) s hs).and
      (Report.ensures_resolveParams p (reported rule v)) hs fun _ _ => True.intro
    exact hcosts.mono fun report d ⟨hd, hconditions, hresult⟩ => ⟨hconditions, hresult, hd⟩
  · exact costsFrom_pure ⟨rfl, rfl, rfl⟩

/-- A run that ends with a report has an account, and asked the provider what that tells. -/
theorem visits_of_execute (hp : p.Metered I meter cost) {rule : Rule} {w w' : World σ}
    {report : Report} (hw : I w.facts) (h : (e.execute p rule).run w = (.ok report, w')) :
    ∃ verdict sight made w₁,
      (e.sighted p [] rule.conditions).run w = (.ok (verdict, report.conditions, sight), w₁) ∧
      report.result = some verdict ∧
      e.Visits p [] rule.conditions verdict report.conditions sight made ∧
      meter w'.facts = meter w.facts + Inquiry.costs cost (made.flatMap Leaf.inquiries ++
        if e.policy.replaceFactsInEventParams then rule.event.inquiries else []) := by
  rw [execute_eq, evaluate_eq_sighted, bind_map_left] at h
  have hspends := spends_sighted hp e [] rule.conditions w hw
  rcases hrun : (e.sighted p [] rule.conditions).run w with ⟨r, w₁⟩
  cases r with
  | error fault =>
    rw [run_bind_of_error hrun] at h
    cases h
  | ok v =>
    have hw₁ : I w₁.facts := by
      have hwithin := hspends.within_run hw
      rwa [hrun] at hwithin
    rw [run_bind_of_ok hrun] at h
    obtain ⟨_, ⟨made, hvisits, rfl⟩, hmade⟩ := hspends.run hw hrun
    obtain ⟨_, ⟨hconditions, hresult, rfl⟩, hparams⟩ :=
      (spends_reported hp e rule (Prod.map id Prod.fst v) w₁ hw₁).run hw₁ h
    refine ⟨v.1, v.2.2, made, w₁, hconditions ▸ rfl, hresult, hconditions ▸ hvisits, ?_⟩
    rw [Inquiry.costs_append, ← Leaf.costs]
    omega

/-- Every run that ends with a report has an account. -/
theorem exists_visits {rule : Rule} {w w' : World σ} {report : Report}
    (h : (e.execute p rule).run w = (.ok report, w')) :
    ∃ verdict sight made, report.result = some verdict ∧
      e.Visits p [] rule.conditions verdict report.conditions sight made := by
  have hp := Provider.metered_still (p := p) (I := fun _ => True) fun _ => ensures_true _
  obtain ⟨verdict, sight, made, w₁, -, hresult, hvisits, -⟩ := visits_of_execute hp trivial h
  exact ⟨verdict, sight, made, hresult, hvisits⟩

/-- Of the members of each group that a run visits just those are evaluated before which no decisive
verdict was given at a higher priority, by the priorities in the state that the evaluation sees when
it visits the group. The others stay as they are, the tree changes at what was evaluated only, and
the provider was asked for the value and the fact of each comparison that was made, for the
parameters of the event if these are replaced, and for nothing else. -/
theorem execute_visits (hp : p.Metered I meter cost) (e : Engine) (rule : Rule) {w w' : World σ}
    {report : Report} (hw : I w.facts)
    (h : (e.execute p rule).run w = (.ok report, w')) :
    (∀ chain c, e.evaluate p chain c = Prod.map id Prod.fst <$> e.sighted p chain c) ∧
    ∃ verdict sight made w₁,
      (e.sighted p [] rule.conditions).run w = (.ok (verdict, report.conditions, sight), w₁) ∧
      report.result = some verdict ∧
      e.Visits p [] rule.conditions verdict report.conditions sight made ∧
      meter w'.facts = meter w.facts + Inquiry.costs cost (made.flatMap Leaf.inquiries ++
        if e.policy.replaceFactsInEventParams then rule.event.inquiries else []) :=
  ⟨evaluate_eq_sighted e p, visits_of_execute hp hw h⟩

/-- The priority of a fact comes first, and a start that is given spares a comparison on a fact that
is missing. -/
theorem execute_visits_start :
    let facts : Provider Unit := { Provider.ofTable (.ofList [("go", .bool true)]) with
      factPriority := fun _ id => if id = "go" then some 2 else none }
    let p : Provider (Unit × Nat) := facts.counted fun _ => 1
    let member (id : String) : Condition := .leaf (.ofComparison id "equal" (.bool true))
    let e : Engine := ⟨.empty, {}⟩
    let rule : Rule :=
      ⟨none, 1, .group .any ⟨1, none, .empty⟩ [member "late", member "go"], ⟨"start", none⟩⟩
    let w : World (Unit × Nat) := ⟨Registry.run true [], ((), 0)⟩
    ∃ report w' sight made w₁, (e.execute p rule).run w = (.ok report, w') ∧
      (e.sighted p [] rule.conditions).run w = (.ok (true, report.conditions, sight), w₁) ∧
      e.Visits p [] rule.conditions true report.conditions sight made ∧
      w'.facts.2 = 2 ∧ Inquiry.costs (fun _ => 1) (made.flatMap Leaf.inquiries) = 2 := by
  intro facts p member e rule w
  have hp : p.Metered (fun _ => True) (·.2) fun _ => 1 :=
    Provider.metered_counted (fun _ => ensures_true _) _
  have hlt (s : Unit × Nat) :
      (member "late").effectivePriority p s < (member "go").effectivePriority p s := by
    change (1 : Int64) < 2
    decide
  let rest : Evaluator (Unit × Nat) := fun _ _ => .fail .missingFactId
  have hevaluate : e.evaluate p [] rule.conditions = _ := evaluate_pair rest (n := 1) (by decide) hlt
  let r := (e.execute p rule).run w
  have hr : r.1.toOption.map (·.result) = some (some true) ∧ r.2.facts.2 = 2 := by
    simp only [r, execute, hevaluate]
    decide +kernel
  cases hrun : (e.execute p rule).run w with
  | mk outcome w' =>
    obtain ⟨hresult, hcount⟩ := hr
    simp only [r, hrun] at hresult hcount
    cases outcome with
    | error fault => cases hresult
    | ok report =>
      obtain ⟨-, verdict, sight, made, w₁, hsighted, hverdict, hvisits, htotal⟩ :=
        execute_visits hp e rule trivial hrun
      have hverdict' : report.result = some true := Option.some.inj hresult
      obtain rfl : verdict = true := Option.some.inj (hverdict.symm.trans hverdict')
      refine ⟨report, w', sight, made, w₁, rfl, hsighted, hvisits, hcount, ?_⟩
      simpa [rule, e, w, hcount] using htotal.symm

end Engine

end Verdict
