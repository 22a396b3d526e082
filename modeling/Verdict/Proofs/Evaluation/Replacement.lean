import Verdict.Proofs.Almanac.AtOnce
import Verdict.Proofs.Almanac.Moves
import Verdict.Proofs.Evaluation.Determined

/-!
# Facts in the parameters of events

A rule is evaluated the same, whether or not facts replace the parameters of its event afterwards.
Where no request waits, the parameters are resolved one after the other in the order of their keys,
each in the state that the evaluation and the parameters before it left. The first one that fails
fails the run, and nothing is replaced then.
-/
namespace Verdict
open Verdict.Action Verdict.Condition

variable {σ α : Type} {I : σ → Prop} {K : String → Json → Prop} {p : Provider σ}

/-- The provider answers each request of `K` at once. What it answers may depend on the state. -/
structure Provider.Instant (p : Provider σ) (I : σ → Prop) (K : String → Json → Prop) : Prop where
  factValue : ∀ {id params}, K id params → ∀ path,
    Action.Instant I (fun _ => True) (p.factValue id params path)
  value : ∀ {v}, Covers K v.requests → Action.Instant I (fun _ => True) (p.value v)

/-! An evaluation whose requests do not wait does not wait itself. -/

namespace Slot

/-- A task that waits for its round will not wait when it runs. -/
def Instant (I : σ → Prop) : Slot σ α → Prop
  | waiting task => Action.Instant I (fun _ => True) task.run
  | settled _ _ => True

theorem Instant.advance {slot : Slot σ α} (h : slot.Instant I) (priority : Int64) :
    Action.Instant I (Slot.Instant I) (slot.advance priority) := by
  cases slot with
  | settled verdict a => exact .pure trivial
  | waiting task =>
    rw [Slot.advance]
    by_cases hpriority : task.priority = priority
    · rw [if_pos hpriority]
      exact Action.Instant.bind h fun v _ => .pure trivial
    · rw [if_neg hpriority]
      exact .pure h

end Slot

namespace Schedule

theorem instant_rounds (neutral : Bool) (ps : List Int64) {slots : List (Slot σ α)}
    (h : ∀ slot ∈ slots, slot.Instant I) :
    Instant I (fun _ => True) (rounds neutral ps slots) := by
  induction ps generalizing slots with
  | nil => exact .pure trivial
  | cons p ps ih =>
    apply (Instant.together _ fun slot hslot => (h slot hslot).advance p).bind
    intro slots' h'
    by_cases hdecisive : slots'.any (Slot.hasVerdict !neutral)
    · rw [if_pos hdecisive]
      exact .pure trivial
    · rw [if_neg hdecisive]
      exact ih h'

theorem instant_run (neutral : Bool) {tasks : List (Task σ α)}
    (h : ∀ task ∈ tasks, Instant I (fun _ => True) task.run) :
    Instant I (fun _ => True) (run neutral tasks) := by
  have hslots : ∀ slot ∈ tasks.map Slot.waiting, slot.Instant I := by
    intro slot hslot
    obtain ⟨task, htask, rfl⟩ := List.mem_map.1 hslot
    exact h task htask
  exact (instant_rounds neutral (priorities tasks) hslots).bind fun _ _ => .pure trivial

end Schedule

namespace World

/-- The facts are within `I`. -/
def Within (I : σ → Prop) (w : World σ) : Prop := I w.facts

theorem instant_onFacts {x : Action σ α} {P : α → Prop} (h : Instant I P x) :
    Instant (Within I) P (onFacts x) := by
  intro w hw
  obtain ⟨r, s, hrun, hr, hs⟩ := h w.facts hw
  exact ⟨r, { w with facts := s }, atOnce_onFacts hrun, hr, hs⟩

theorem instant_operator (name : String) :
    Instant (Within I) (fun _ => True) (operator name : Action (World σ) Operator) := by
  intro w hw
  exact ⟨_, { w with operators := (w.operators.resolve name).2 }, rfl, meets_true _, hw⟩

end World

theorem Condition.Leaf.instant_observe (hp : p.Instant I K) {l : Leaf}
    (h : Covers K l.comparison.requests) :
    Instant (World.Within I) (fun _ => True) (l.observe p) := by
  have hfact := hp.factValue (h _ List.mem_cons_self) l.path
  have hvalue := hp.value fun request hmem => h request (List.mem_cons_of_mem _ hmem)
  apply (World.instant_operator l.operator).bind
  intro o _
  exact (World.instant_onFacts (hvalue.pair hfact)).bind fun seen _ => .pure trivial

namespace Engine

theorem instant_evaluate (hp : p.Instant I K) (e : Engine) (chain : List String) (c : Condition)
    (h : Covers K (e.expand chain c).requests) :
    Instant (World.Within I) (fun _ => True) (e.evaluate p chain c) := by
  induction chain, c using Engine.evaluate.induct e with
  | case1 chain q heading cs ih =>
    rw [expand, Formula.requests] at h
    rw [evaluate]
    refine Instant.state fun w _ => ?_
    refine (Schedule.instant_run q.neutral fun task htask => ?_).bind fun _ _ => .pure trivial
    obtain ⟨c, hc, rfl⟩ := List.mem_map.1 htask
    apply ih c hc
    intro request hmem
    exact h request (Formula.requests_subset_requestsAll (List.mem_map_of_mem hc) hmem)
  | case2 chain heading c ih =>
    rw [expand, Formula.requests] at h
    rw [evaluate]
    exact (ih h).bind fun _ _ => .pure trivial
  | case3 chain l =>
    rw [expand, Formula.requests] at h
    rw [evaluate]
    exact (Leaf.instant_observe hp h).bind fun _ _ => .pure trivial
  | case4 chain ref hmem =>
    rw [evaluate_of_mem hmem]
    exact instant_fail _
  | case5 chain ref hnew stored hget ih =>
    rw [expand_of_get? hnew hget] at h
    rw [expand_realize] at ih
    rw [evaluate_of_get? hnew hget]
    exact ih h
  | case6 chain ref hnew hget hallow =>
    rw [evaluate_of_get?_eq_none hnew hget, if_pos hallow]
    exact .pure trivial
  | case7 chain ref hnew hget hallow =>
    rw [evaluate_of_get?_eq_none hnew hget, if_neg hallow]
    exact instant_fail _

end Engine

/-! Parameters, one after the other. -/

namespace Provider

/-- The parameters with their values, each as it is resolved in the state that those before it
left. -/
inductive Resolves (p : Provider σ) :
    σ → List (String × Json) → List (String × Json) → σ → Prop
  | nil {s : σ} : Resolves p s [] [] s
  | cons {s s' s'' : σ} {key : String} {v u : Json} {params resolved : List (String × Json)}
      (hv : (p.value v).run s = (.ok u, s')) (hrest : Resolves p s' params resolved s'') :
      Resolves p s ((key, v) :: params) ((key, u) :: resolved) s''

theorem Resolves.keys_eq {s s' : σ} {params resolved : List (String × Json)}
    (h : p.Resolves s params resolved s') : resolved.map Prod.fst = params.map Prod.fst := by
  induction h with
  | nil => rfl
  | cons _ _ ih => exact congrArg (_ :: ·) ih

/-- A parameter with its value. -/
def resolve (p : Provider σ) (param : String × Json) : Action σ (String × Json) := do
  return (param.1, ← p.value param.2)

theorem run_resolve (p : Provider σ) (key : String) (v : Json) (s : σ) :
    (p.resolve (key, v)).run s =
      (((p.value v).run s).1.map ((key, ·)), ((p.value v).run s).2) := by
  change ((p.value v).andThen _).run s = _
  rw [run_andThen]
  cases ((p.value v).run s).1 <;> rfl

/-- Either all parameters are resolved, or there is a first one that fails. -/
theorem run_forEach_resolve (p : Provider σ) (s : σ) (params : List (String × Json)) :
    (∃ resolved s', p.Resolves s params resolved s' ∧
      (forEach p.resolve params).run s = (.ok resolved, s')) ∨
    ∃ before key v after resolved s' fault s'', params = before ++ (key, v) :: after ∧
      p.Resolves s before resolved s' ∧ (p.value v).run s' = (.error fault, s'') ∧
      (forEach p.resolve params).run s = (.error fault, s'') := by
  induction params generalizing s with
  | nil => exact .inl ⟨[], s, .nil, rfl⟩
  | cons param params ih =>
    obtain ⟨key, v⟩ := param
    have hfirst := run_resolve p key v s
    rcases hv : (p.value v).run s with ⟨r, s'⟩
    rw [hv] at hfirst
    cases r with
    | error fault =>
      refine .inr ⟨[], key, v, params, [], s, fault, s', rfl, .nil, hv, ?_⟩
      exact run_bind_of_error hfirst _
    | ok u =>
      have hrun := run_bind_of_ok hfirst fun b => do
        let bs ← forEach p.resolve params
        return b :: bs
      rcases ih s' with ⟨resolved, s'', hresolves, hrest⟩ |
        ⟨before, key', v', after, resolved, t, fault, t', rfl, hbefore, hv', hrest⟩
      · refine .inl ⟨(key, u) :: resolved, s'', .cons hv hresolves, ?_⟩
        exact hrun.trans (run_bind_of_ok hrest _)
      · refine .inr ⟨(key, v) :: before, key', v', after, (key, u) :: resolved, t, fault, t', rfl,
          .cons hv hbefore, hv', ?_⟩
        exact hrun.trans (run_bind_of_error hrest _)

/-- What becomes of a report whose parameters are replaced: all of them are, or the first that
fails fails it. -/
inductive Replaces (p : Provider σ) (report : Report) (s : σ) : Except Fault Report → σ → Prop
  | without (hparams : report.event.params = none) : Replaces p report s (.ok report) s
  | all {params : Table Json} {resolved : List (String × Json)} {s' : σ}
      (hparams : report.event.params = some params)
      (h : p.Resolves s params.entries resolved s') :
      Replaces p report s
        (.ok { report with event := { report.event with params := some ⟨resolved⟩ } }) s'
  | fault {params : Table Json} {before after resolved : List (String × Json)} {key : String}
      {v : Json} {s' s'' : σ} {fault : Fault} (hparams : report.event.params = some params)
      (hentries : params.entries = before ++ (key, v) :: after)
      (hbefore : p.Resolves s before resolved s')
      (hv : (p.value v).run s' = (.error fault, s'')) : Replaces p report s (.error fault) s''

end Provider

/-- Side by side the parameters are resolved as one after the other. -/
theorem Report.replaces_resolveParams (hp : p.Instant I K) (report : Report) {s : σ}
    (h : Covers K report.event.requests) (hs : I s) :
    ∃ outcome s', p.Replaces report s outcome s' ∧
      (report.resolveParams p).atOnce s = some (outcome, s') := by
  unfold resolveParams
  cases hparams : report.event.params with
  | none => exact ⟨.ok report, s, .without hparams, rfl⟩
  | some params =>
    have hentries : ∀ param ∈ params.entries, Instant I (fun _ => True) (p.resolve param) := by
      intro param hparam
      have hvalue : Covers K param.2.requests := by
        intro request hmem
        apply h request
        rw [Event.requests, hparams]
        exact List.mem_flatMap.2 ⟨param, hparam, hmem⟩
      exact (hp.value hvalue).bind fun _ _ => .pure trivial
    have htogether := Instant.atOnce_together params.size hentries hs
    rw [(Instant.forEach hentries).atOnce_eq hs] at htogether
    rcases p.run_forEach_resolve s params.entries with ⟨resolved, s', hresolves, hrun⟩ |
      ⟨before, key, v, after, resolved, s', fault, s'', he, hbefore, hv, hrun⟩
    · rw [hrun] at htogether
      exact ⟨_, s', .all hparams hresolves, atOnce_andThen htogether _⟩
    · rw [hrun] at htogether
      exact ⟨_, s'', .fault hparams he hbefore hv, atOnce_andThen htogether _⟩

namespace Report

/-- A report that fails to be replaced stays what it is. -/
theorem run_resolveInPlace {report : Report} {s s' : σ} {outcome : Except Fault Report}
    (h : (report.resolveParams p).atOnce s = some (outcome, s')) :
    (resolveInPlace p).run (report, s) =
      (outcome.map fun _ => (), (outcome.toOption.getD report, s')) := by
  have hpart : ((report.resolveParams p).onPart Prod.snd
      fun s (kept : Report × σ) => (kept.1, s)).atOnce (report, s) =
      some (outcome, (report, s')) := by
    apply atOnce_onPart _ _ _ h
    · exact fun _ _ => rfl
    · exact fun _ _ _ => rfl
    · exact fun _ => rfl
  apply run_eq_of_atOnce
  refine (atOnce_andThen hpart _).trans ?_
  cases outcome <;> rfl

end Report

/-! References to facts of an almanac. -/

namespace Almanac

/-- A request gives the part of the value of the fact that its path leads to. -/
theorem run_request_path (depth : Nat) (id : String) (params : Json) (path : Option String)
    (c : Consultation) : (request depth id params path).run c =
      (((request depth id params none).run c).1.map (·.project path),
        ((request depth id params none).run c).2) := by
  cases depth with
  | zero => rfl
  | succ depth =>
    cases hget : c.almanac.facts.get? id with
    | some f =>
      rw [(agree_request hget depth params path).run_eq,
        (agree_request hget depth params none).run_eq, run_project, run_project]
      cases ((compute (request depth) f params).run c).1 <;> rfl
    | none =>
      have hmissing (path : Option String) : (request (depth + 1) id params path).run c =
          (if c.almanac.options.allowUndefinedFacts then .ok .null else .error (.undefinedFact id),
            c) := by
        rw [request, (agreeFrom_state c _).run_eq]
        simp only [hget]
        split <;> rfl
      rw [hmissing, hmissing]
      by_cases hallow : c.almanac.options.allowUndefinedFacts
      · rw [if_pos hallow]
        exact congrArg (fun v => (Except.ok v, c)) (Json.project_null path).symm
      · rw [if_neg hallow]
        rfl

/-- A value that refers to a fact stands for the part of its value that the path leads to, or null if
it leads nowhere, and any other value for itself. -/
theorem run_value (depth : Nat) (v : Json) (c : Consultation) :
    ((provider depth).value v).run c =
      match FactReference.ofJson? v with
      | some r =>
        ((((provider depth).factValue r.id r.params none).run c).1.map fun w =>
            r.path.elim w fun path => (w.resolve? path).getD .null,
          (((provider depth).factValue r.id r.params none).run c).2)
      | none => (.ok v, c) := by
  cases hreference : FactReference.ofJson? v with
  | some r =>
    simp only [provider, hreference, ← Json.project_eq]
    exact run_request_path depth r.id r.params r.path c
  | none =>
    simp only [provider, hreference]
    rfl

/-- An almanac with nothing underway answers at once, with or without a cache, if no computation of
its facts pauses or needs a value under its own key. -/
theorem instant_provider {facts : Table Fact} (h : Unpaused facts) (depth : Nat) :
    (provider depth).Instant (Still facts []) (Unlooped facts) where
  factValue hK path := instant_request h hK (fun _ _ => List.forall_mem_nil _) depth path
  value {v} hv := by
    cases hreference : FactReference.ofJson? v with
    | some r =>
      have hrequest : Unlooped facts r.id r.params := by
        apply hv (r.id, r.params)
        simp [Json.requests, hreference]
      simp only [provider, hreference]
      exact instant_request h hrequest (fun _ _ => List.forall_mem_nil _) depth r.path
    | none =>
      simp only [provider, hreference]
      exact .pure trivial

end Almanac

namespace Engine

/-- The engine with or without the replacement of parameters. -/
def replacing (e : Engine) (replace : Bool) : Engine :=
  { e with policy := { e.policy with replaceFactsInEventParams := replace } }

theorem evaluate_replacing (e : Engine) (replace : Bool) (chain : List String) (c : Condition) :
    (e.replacing replace).evaluate p chain c = e.evaluate p chain c := by
  induction chain, c using Engine.evaluate.induct e with
  | case1 chain q heading cs ih =>
    rw [evaluate, evaluate]
    refine bind_congr fun w => ?_
    have htasks : (cs.map fun c => (⟨effectivePriority p w.facts c, c,
        (e.replacing replace).evaluate p chain c⟩ : Task (World σ) Condition)) =
        cs.map fun c => ⟨effectivePriority p w.facts c, c, e.evaluate p chain c⟩ :=
      List.map_congr_left fun c hc => by rw [ih c hc]
    rw [htasks]
  | case2 chain heading c ih => rw [evaluate, evaluate, ih]
  | case3 chain l => rw [evaluate, evaluate]
  | case4 chain ref hmem => rw [evaluate_of_mem hmem, evaluate_of_mem hmem]
  | case5 chain ref hnew stored hget ih =>
    rw [evaluate_of_get? hnew hget, evaluate_of_get? hnew (e := e.replacing replace) hget, ih]
  | case6 chain ref hnew hget hallow =>
    rw [evaluate_of_get?_eq_none hnew hget, if_pos hallow,
      evaluate_of_get?_eq_none (e := e.replacing replace) hnew hget]
    exact if_pos hallow
  | case7 chain ref hnew hget hallow =>
    rw [evaluate_of_get?_eq_none hnew hget, if_neg hallow,
      evaluate_of_get?_eq_none (e := e.replacing replace) hnew hget]
    exact if_neg hallow

theorem execute_replacing_eq (e : Engine) (p : Provider σ) (rule : Rule) (replace : Bool) :
    (e.replacing replace).execute p rule = do
      let v ← e.evaluate p [] rule.conditions
      if replace then World.onFacts ((reported rule v).resolveParams p)
      else return reported rule v := by
  rw [execute_eq, evaluate_replacing]
  rfl

/-- Replacing parameters has no part in evaluating a rule. A run that fails without it fails with
the same fault. Otherwise the report stays as it is but for the parameters of the event, or the run
fails with the fault of the first parameter that cannot be resolved. A report that is kept somewhere
is replaced as a whole there, or stays what it is. The keys of the parameters stay; for an almanac,
only a value that refers to a fact is replaced, by the part of the fact that its path leads to, or by
null if it leads nowhere. -/
theorem execute_replacing (e : Engine) (rule : Rule) (hp : p.Instant I K)
    (hrule : Covers K ((e.replacing true).requests rule)) {w : World σ} (hw : I w.facts) :
    let off := ((e.replacing false).execute p rule).run w
    let on := ((e.replacing true).execute p rule).run w
    (∀ fault w', off = (.error fault, w') → on = (.error fault, w')) ∧
      (∀ report w', off = (.ok report, w') → ∃ outcome s, p.Replaces report w'.facts outcome s ∧
        on = (outcome, { w' with facts := s })) ∧
      (∀ report s, Covers K report.event.requests → I s → ∃ outcome s',
        p.Replaces report s outcome s' ∧ (Report.resolveInPlace p).run (report, s) =
          (outcome.map fun _ => (), (outcome.toOption.getD report, s'))) ∧
      (∀ s params resolved s', p.Resolves s params resolved s' →
        resolved.map Prod.fst = params.map Prod.fst) ∧
      ∀ depth v c, ((Almanac.provider depth).value v).run c =
        match FactReference.ofJson? v with
        | some r =>
          ((((Almanac.provider depth).factValue r.id r.params none).run c).1.map fun w =>
              r.path.elim w fun path => (w.resolve? path).getD .null,
            (((Almanac.provider depth).factValue r.id r.params none).run c).2)
        | none => (.ok v, c) := by
  intro off on
  have hevaluate : Covers K ((e.replacing true).expand [] rule.conditions).requests :=
    fun request hmem => hrule request (List.mem_append_left _ hmem)
  have hevent : Covers K rule.event.requests :=
    fun request hmem => hrule request (List.mem_append_right _ hmem)
  have hinstant := instant_evaluate hp (e.replacing true) [] rule.conditions hevaluate
  rw [evaluate_replacing] at hinstant
  have hleft : I ((e.evaluate p [] rule.conditions).run w).2.facts := hinstant.run hw
  have hinPlace (report : Report) (s : σ) (h : Covers K report.event.requests) (hs : I s) :
      ∃ outcome s', p.Replaces report s outcome s' ∧ (Report.resolveInPlace p).run (report, s) =
        (outcome.map fun _ => (), (outcome.toOption.getD report, s')) := by
    obtain ⟨outcome, s', hreplaces, honce⟩ := Report.replaces_resolveParams hp report h hs
    exact ⟨outcome, s', hreplaces, Report.run_resolveInPlace honce⟩
  simp only [off, on, execute_replacing_eq, if_pos, if_neg Bool.false_ne_true]
  rcases hrun : (e.evaluate p [] rule.conditions).run w with ⟨r, w'⟩
  rw [hrun] at hleft
  cases r with
  | error fault =>
    rw [run_bind_of_error hrun, run_bind_of_error hrun]
    exact ⟨fun _ _ h => h, nofun, hinPlace, fun _ _ _ _ h => h.keys_eq, Almanac.run_value⟩
  | ok v =>
    rw [run_bind_of_ok hrun, run_bind_of_ok hrun]
    refine ⟨fun _ _ h => (nomatch h), ?_, hinPlace, fun _ _ _ _ h => h.keys_eq, Almanac.run_value⟩
    rintro report _ ⟨⟩
    obtain ⟨outcome, s, hreplaces, honce⟩ :=
      Report.replaces_resolveParams hp (reported rule v) hevent hleft
    exact ⟨outcome, s, hreplaces, run_eq_of_atOnce (World.atOnce_onFacts honce)⟩

/-- The parameters find what the evaluation and the parameters before them left: a value that the
evaluation computed is kept, and a fact that counts its computations is one further. Text that is
the name of a fact is no reference to it. -/
theorem execute_replacing_visits :
    let visits : Fact :=
      ⟨"visits", .dynamic fun n _ => .done (.ok (.ofNat n)), { cache := false }, Fact.defaultKey⟩
    let seen : Fact :=
      ⟨"seen", .dynamic fun _ _ => .ask "visits" .null none .done, {}, Fact.defaultKey⟩
    let facts : Table Fact := .ofList [("seen", seen), ("visits", visits)]
    let fact (id : String) : Json := .object (.ofList [("fact", .string id)])
    let params (kept next : Json) : Table Json :=
      .ofList [("kept", kept), ("name", .string "visits"), ("next", next)]
    let rule : Rule := ⟨none, 1, .leaf (.ofComparison "seen" "equal" (.ofNat 0)),
      ⟨"visited", some (params (fact "seen") (fact "visits"))⟩⟩
    let p := Almanac.provider 3
    let e : Engine := ⟨.empty, {}⟩
    let w : World Consultation :=
      ⟨Registry.run true [], { almanac := { Almanac.empty ⟨false, true⟩ with facts } }⟩
    p.Instant (Almanac.Still facts []) (Almanac.Unlooped facts) ∧ Almanac.Still facts [] w.facts ∧
      Covers (Almanac.Unlooped facts) ((e.replacing true).requests rule) ∧
      ∃ report w', ((e.replacing false).execute p rule).run w = (.ok report, w') ∧
        ∃ outcome s, p.Replaces report w'.facts outcome s ∧
          ((e.replacing true).execute p rule).run w = (outcome, { w' with facts := s }) ∧
          outcome.toOption.map (·.event.toJson.text) =
            some (Event.toJson ⟨"visited", some (params (.ofNat 0) (.ofNat 1))⟩).text := by
  intro visits seen facts fact params rule p e w
  have hfacts {id : String} {f : Fact} (hget : facts.get? id = some f) :
      id = "visits" ∧ f = visits ∨ id = "seen" ∧ f = seen := by
    rcases Table.get?_insert_eq_some_iff.1 hget with hvisits | ⟨-, hget⟩
    · exact .inl hvisits
    · rcases Table.get?_insert_eq_some_iff.1 hget with hseen | ⟨-, hget⟩
      · exact .inr hseen
      · cases hget
  have hunpaused : Almanac.Unpaused facts := by
    intro id f compute hget hsource n params
    rcases hfacts hget with ⟨-, rfl⟩ | ⟨-, rfl⟩
    · cases hsource
      exact trivial
    · cases hsource
      exact fun _ => trivial
  have hasks {request request' : String × Json} (h : Almanac.Asks facts request request') :
      request.1 = "seen" ∧ request'.1 = "visits" := by
    obtain ⟨f, compute, n, hget, hsource, hasks⟩ := h
    rcases hfacts hget with ⟨-, rfl⟩ | ⟨hid, rfl⟩
    · cases hsource
      cases hasks
    · cases hsource
      cases hasks with
      | ask => exact ⟨hid, rfl⟩
      | next _ hnext => cases hnext
  have hunlooped (id : String) (params : Json) : Almanac.Unlooped facts id params := by
    intro request _ request' hreaches key _ ⟨f, hget, hkey⟩
    have hvisits : request'.1 = "visits" := by
      cases hreaches with
      | single h => exact (hasks h).2
      | tail _ h => exact (hasks h).2
    rcases hfacts hget with ⟨-, rfl⟩ | ⟨hid, -⟩
    · cases hkey
    · exact absurd (hvisits.symm.trans hid) (by decide)
  have hp : p.Instant (Almanac.Still facts []) (Almanac.Unlooped facts) :=
    Almanac.instant_provider hunpaused 3
  have hw : Almanac.Still facts [] w.facts := ⟨rfl, rfl⟩
  have hrule : Covers (Almanac.Unlooped facts) ((e.replacing true).requests rule) :=
    fun request _ => hunlooped request.1 request.2
  obtain ⟨-, hreport, -⟩ := execute_replacing e rule hp hrule hw
  have hoff : (((e.replacing false).execute p rule).run w).1.isOk = true := by
    rw [execute, evaluate]
    decide +kernel
  have hon : (((e.replacing true).execute p rule).run w).1.toOption.map (·.event.toJson.text) =
      some (Event.toJson ⟨"visited", some (params (.ofNat 0) (.ofNat 1))⟩).text := by
    rw [execute, evaluate]
    decide +kernel
  rcases hrun : ((e.replacing false).execute p rule).run w with ⟨r, w'⟩
  rw [hrun] at hoff
  cases r with
  | error fault => cases hoff
  | ok report =>
    obtain ⟨outcome, s, hreplaces, hout⟩ := hreport report w' hrun
    rw [hout] at hon
    exact ⟨hp, hw, hrule, report, w', rfl, outcome, s, hreplaces, hout, hon⟩

end Engine
end Verdict
