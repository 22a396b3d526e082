import Mathlib.Logic.Relation
import Verdict.Proofs.Action.AtOnce
import Verdict.Proofs.Almanac.Request

/-!
# Requests that do not wait

A request waits if its value is being computed already, or if a computation pauses. Where no
fact depends on itself and no computation pauses, a request finds none of its keys underway: it
is answered at once, and leaves what is underway as it was.
-/
namespace Verdict
open Verdict.Action

namespace Computation

/-- The computation never pauses, whatever it is answered. -/
def Unpaused : Computation → Prop
  | done _ => True
  | ask _ _ _ next => ∀ r, Unpaused (next r)
  | pause _ => False

theorem ends_run {σ : Type} {I : σ → Prop} {K : String → Json → Prop}
    {plain : String → Json → Option String → Except Fault Json}
    {answer : String → Json → Option String → Action σ Json} {c : Computation}
    (hc : c.Within plain K) (hunpaused : c.Unpaused)
    (h : ∀ id params path, K id params → Ends I (plain id params path) (answer id params path)) :
    Ends I (c.outcome plain) (c.run answer) := by
  induction c with
  | done r => exact ends_done I r
  | ask id params path next ih =>
    exact (h id params path hc.1).andThen (ih _ hc.2 (hunpaused _))
  | pause next _ => exact hunpaused.elim

/-- For some answers to what it asked before, the computation makes this request. -/
inductive AsksFor : Computation → String × Json → Prop
  | ask {id : String} {params : Json} {path : Option String}
      {next : Except Fault Json → Computation} : AsksFor (.ask id params path next) (id, params)
  | next {id : String} {params : Json} {path : Option String}
      {next : Except Fault Json → Computation} {request : String × Json} (r : Except Fault Json)
      (h : AsksFor (next r) request) : AsksFor (.ask id params path next) request
  | pause {next : Computation} {request : String × Json} (h : AsksFor next request) :
      AsksFor (.pause next) request

/-- What never pauses does not wait, if what it asks for does not. -/
theorem instant_run {σ : Type} {I : σ → Prop}
    {answer : String → Json → Option String → Action σ Json} {c : Computation}
    (hunpaused : c.Unpaused) (h : ∀ id params path, c.AsksFor (id, params) →
      Instant I (fun _ => True) (answer id params path)) : Instant I (fun _ => True) (c.run answer) := by
  induction c with
  | done r => exact (ends_done I r).instant (meets_true r)
  | ask id params path next ih =>
    apply (h id params path .ask).andThen
    exact fun r _ => ih r (hunpaused r) fun id' params' path' hasks => h id' params' path' (.next r hasks)
  | pause next _ => exact hunpaused.elim

end Computation

namespace Almanac

/-- The almanac is steady, and these are the keys whose values are being computed. -/
structure Calm (K : String → Json → Prop) (facts : Table Fact) (options : AlmanacOptions)
    (underway : List String) (c : Consultation) : Prop extends Steady K facts options c where
  underway_eq : c.underway = underway

/-- The keys are of no request of `K` for the fact or for one that it depends on. -/
def Free (K : String → Json → Prop) (facts : Table Fact) (keys : List String) (id : String) :
    Prop :=
  ∀ ⦃id' params⦄, Relation.ReflTransGen (DependsOn facts) id id' → K id' params →
    (Fact.defaultKey id' params).digest ∉ keys

variable {K : String → Json → Prop} {facts : Table Fact} {options : AlmanacOptions}
variable {keys : List String} {id : String} {params : Json}

theorem free_nil (K : String → Json → Prop) (facts : Table Fact) (id : String) :
    Free K facts [] id :=
  fun _ _ _ _ => List.not_mem_nil

theorem Free.of_dependsOn (h : Free K facts keys id) {id' : String}
    (hdepends : DependsOn facts id id') : Free K facts keys id' :=
  fun _ _ hreaches hK => h (.head hdepends hreaches) hK

/-- The key of a request is not that of a request for what its fact depends on. -/
theorem Free.cons (h : Free K facts keys id) (hacyclic : Acyclic facts) (hapart : Apart K)
    (hK : K id params) {id' : String} (hdepends : DependsOn facts id id') :
    Free K facts ((Fact.defaultKey id params).digest :: keys) id' := by
  intro id'' params'' hreaches hK''
  have hkeys := h.of_dependsOn hdepends hreaches hK''
  refine List.not_mem_cons_of_ne_of_not_mem (fun hdigest => ?_) hkeys
  obtain ⟨rfl, -⟩ := hapart hK'' hK hdigest
  exact hacyclic id'' (.head' hdepends hreaches)

/-- A calm almanac lets the action end at once, and has the same keys underway afterwards. -/
def Quiet (K : String → Json → Prop) (facts : Table Fact) (options : AlmanacOptions)
    (keys : List String) (x : Action Consultation Json) : Prop :=
  ∀ c, Calm K facts options keys c → ∃ r c', x.atOnce c = some (r, c') ∧ c'.underway = keys

variable {x : Action Consultation Json} {r : Except Fault Json} {f : Fact}

theorem quiet_done (r : Except Fault Json) : Quiet K facts options keys (.done r) :=
  fun c hc => ⟨r, c, rfl, hc.underway_eq⟩

theorem quiet_state {next : Consultation → Action Consultation Json}
    (h : ∀ c, Calm K facts options keys c → Quiet K facts options keys (next c)) :
    Quiet K facts options keys (Action.state >>= next) :=
  fun c hc => h c hc c hc

theorem Quiet.map (h : Quiet K facts options keys x) (f : Json → Json) :
    Quiet K facts options keys (do return f (← x)) := by
  intro c hc
  obtain ⟨r, c', hrun, hunderway⟩ := h c hc
  refine ⟨r.map f, c', (atOnce_andThen hrun _).trans ?_, hunderway⟩
  cases r <;> rfl

/-- If it yields an outcome whatever others do, it ends with that. -/
theorem Quiet.ends (h : Quiet K facts options keys x) (hr : Yields (Steady K facts options) r x) :
    Ends (Calm K facts options keys) r x := by
  intro c hc
  obtain ⟨r', c', hrun, hunderway⟩ := h c hc
  obtain ⟨he, hsteady⟩ := hr.run hc.toSteady
  rw [run_eq_of_atOnce hrun] at he hsteady
  exact ⟨c', he ▸ hrun, hsteady, hunderway⟩

theorem quiet_of_ends (h : Ends (Calm K facts options keys) r x) :
    Quiet K facts options keys x := by
  intro c hc
  obtain ⟨c', hrun, hc'⟩ := h c hc
  exact ⟨r, c', hrun, hc'.underway_eq⟩

theorem quiet_keptOr (key : String) (h : Quiet K facts options keys x) :
    Quiet K facts options keys (keptOr key x) := by
  refine quiet_state fun c _ => ?_
  cases c.almanac.cache.get? key with
  | none => exact h
  | some v => exact quiet_done (.ok v)

theorem quiet_keep {key : String} (h : Quiet K facts options (key :: keys) x) :
    Quiet K facts options keys (keep key x) := by
  intro c hc
  have hstart : Calm K facts options (key :: keys) (c.start key) :=
    ⟨⟨hc.facts_eq, hc.options_eq, hc.faithful⟩, congrArg (key :: ·) hc.underway_eq⟩
  obtain ⟨r, c', hrun, hunderway⟩ := h _ hstart
  refine ⟨r, c'.finish key r, atOnce_andThen hrun _, ?_⟩
  change c'.underway.erase key = keys
  rw [hunderway, List.erase_cons_head]

theorem quiet_calculate {answer : String → Json → Option String → Action Consultation Json}
    (hf : f.Ordinary) (h : ∀ compute, f.source = .dynamic compute →
      Quiet K facts options keys ((compute 0 params).run answer)) :
    Quiet K facts options keys (calculate answer f params) := by
  unfold calculate
  split
  · exact quiet_done (.ok _)
  · rename_i compute hsource
    intro c hc
    -- how often the fact was computed differs from state to state, but has no effect
    change ∃ r c', ((compute (c.almanac.callsOf f.id) params).run answer).atOnce _ = _ ∧ _
    rw [hf.compute_eq hsource]
    exact h compute hsource _ ⟨⟨hc.facts_eq, hc.options_eq, hc.faithful⟩, hc.underway_eq⟩

theorem quiet_compute {answer : String → Json → Option String → Action Consultation Json}
    (hregular : Regular facts) (hacyclic : Acyclic facts) (hapart : Apart K) (hK : K id params)
    (hget : facts.get? id = some f) (hfree : Free K facts keys id)
    (h : ∀ keys, (∀ id', DependsOn facts id id' → Free K facts keys id') →
      Quiet K facts options keys (calculate answer f params)) :
    Quiet K facts options keys (compute answer f params) := by
  refine quiet_state fun c hc => ?_
  cases hkey : c.almanac.keyOf? f params with
  | none => exact h keys fun _ => hfree.of_dependsOn
  | some key =>
    have hdigest := hregular.digest_eq hget (cacheKey_of_keyOf? hkey)
    have hidle : c.isUnderway key = false := by
      have hnot := hfree .refl hK
      rw [hdigest] at hnot
      simpa [Consultation.isUnderway, hc.underway_eq] using hnot
    have hinner := h (key :: keys) fun _ hdepends =>
      hdigest ▸ hfree.cons hacyclic hapart hK hdepends
    simp only [hidle]
    exact quiet_keptOr key (quiet_keep hinner)

/-- Every computation of the facts gives the same for the same answers and ends at once if they
come at once. With a request of `K`, all that is asked for it is in `K`, where different requests
have different keys. -/
structure Predictable (K : String → Json → Prop) (facts : Table Fact) (allow : Bool) : Prop where
  regular : Regular facts
  acyclic : Acyclic facts
  unpaused : ∀ {id f compute}, facts.get? id = some f → f.source = .dynamic compute →
    ∀ params, (compute 0 params).Unpaused
  closed : Closed K facts allow
  apart : Apart K

theorem quiet_request (h : Predictable K facts options.allowUndefinedFacts) {depth : Nat}
    (hdeep : Deep facts depth id) (hK : K id params) (path : Option String)
    (hfree : Free K facts keys id) : Quiet K facts options keys (request depth id params path) := by
  induction depth generalizing keys id params path with
  | zero => cases hdeep
  | succ depth ih =>
    refine quiet_state fun c hc => ?_
    rw [hc.facts_eq]
    cases hget : facts.get? id with
    | none =>
      dsimp only
      split
      · exact quiet_done (.ok Json.null)
      · exact quiet_done (.error (.undefinedFact id))
    | some f =>
      refine Quiet.map ?_ (·.project path)
      refine quiet_compute h.regular h.acyclic h.apart hK hget hfree fun keys' hfree' => ?_
      refine quiet_calculate (h.regular.ordinary hget) fun compute hsource => ?_
      have hdepends {id' : String} (hm : (compute 0 params).Mentions id') :
          DependsOn facts id id' := ⟨f, compute, hget, hsource, 0, params, hm⟩
      have hwithin := (h.closed hK hget hsource).mentioned fun _ => hdepends
      refine quiet_of_ends (Computation.ends_run hwithin (h.unpaused hget hsource params) ?_)
      intro id' params' path' hasked
      have hdeep' := hdeep id' hasked.2
      exact (ih hdeep' hasked.1 path' (hfree' id' hasked.2)).ends
        (yields_request h.regular h.acyclic h.apart h.closed hdeep' hasked.1 path')

/-- A request of `K` is answered at once. -/
theorem ends_request (h : Predictable K facts options.allowUndefinedFacts) {depth : Nat}
    (hdeep : Deep facts depth id) (hK : K id params) (path : Option String)
    (hfree : Free K facts keys id) :
    Ends (Calm K facts options keys) (answer facts options.allowUndefinedFacts id params path)
      (request depth id params path) :=
  (quiet_request h hdeep hK path hfree).ends
    (yields_request h.regular h.acyclic h.apart h.closed hdeep hK path)

/-! Requests that may be answered differently from time to time, but do not wait. -/

/-- No computation of the facts ever pauses, however often it is done. -/
def Unpaused (facts : Table Fact) : Prop :=
  ∀ {id : String} {f : Fact} {compute : Nat → Json → Computation}, facts.get? id = some f →
    f.source = .dynamic compute → ∀ n params, (compute n params).Unpaused

/-- A computation for the first request may make the second one. -/
def Asks (facts : Table Fact) (request request' : String × Json) : Prop :=
  ∃ f compute n, facts.get? request.1 = some f ∧ f.source = .dynamic compute ∧
    (compute n request.2).AsksFor request'

def HasKey (facts : Table Fact) (key : String) (request : String × Json) : Prop :=
  ∃ f, facts.get? request.1 = some f ∧ f.cacheKey request.2 = some key

/-- Nothing that is asked on the way needs, through what it asks in its turn, a value under its own
key. -/
def Unlooped (facts : Table Fact) (id : String) (params : Json) : Prop :=
  ∀ ⦃request⦄, Relation.ReflTransGen (Asks facts) (id, params) request →
    ∀ ⦃request'⦄, Relation.TransGen (Asks facts) request request' →
      ∀ ⦃key⦄, HasKey facts key request → ¬ HasKey facts key request'

theorem Unlooped.of_asks (h : Unlooped facts id params) {id' : String} {params' : Json}
    (hasks : Asks facts (id, params) (id', params')) : Unlooped facts id' params' :=
  fun _ hreaches => h (.head hasks hreaches)

/-- The almanac has these facts, and these are the keys whose values are being computed. -/
structure Still (facts : Table Fact) (keys : List String) (c : Consultation) : Prop where
  facts_eq : c.almanac.facts = facts
  underway_eq : c.underway = keys

theorem instant_keptOr (key : String) (h : Instant (Still facts keys) (fun _ => True) x) :
    Instant (Still facts keys) (fun _ => True) (keptOr key x) := by
  refine Instant.state fun c _ => ?_
  cases c.almanac.cache.get? key with
  | none => exact h
  | some v => exact .pure trivial

theorem instant_keep {key : String} (h : Instant (Still facts (key :: keys)) (fun _ => True) x) :
    Instant (Still facts keys) (fun _ => True) (keep key x) := by
  intro c hc
  have hstart : Still facts (key :: keys) (c.start key) :=
    ⟨hc.facts_eq, congrArg (key :: ·) hc.underway_eq⟩
  obtain ⟨r, c', hrun, -, hc'⟩ := h _ hstart
  refine ⟨r, c'.finish key r, atOnce_andThen hrun _, meets_true r, ?_, ?_⟩
  · cases r <;> exact hc'.facts_eq
  · change c'.underway.erase key = keys
    rw [hc'.underway_eq, List.erase_cons_head]

theorem instant_calculate (hunpaused : Unpaused facts) (hget : facts.get? id = some f)
    {answer : String → Json → Option String → Action Consultation Json}
    (h : ∀ id' params' path, Asks facts (id, params) (id', params') →
      Instant (Still facts keys) (fun _ => True) (answer id' params' path)) :
    Instant (Still facts keys) (fun _ => True) (calculate answer f params) := by
  cases hsource : f.source with
  | constant v =>
    simp only [calculate, hsource]
    exact .pure trivial
  | dynamic compute =>
    simp only [calculate, hsource]
    have hbegin : Instant (Still facts keys) (fun _ => True) (beginCall f.id) := by
      intro c hc
      exact ⟨_, _, rfl, trivial, hc.facts_eq, hc.underway_eq⟩
    apply hbegin.bind
    intro n _
    apply Computation.instant_run (hunpaused hget hsource n params)
    exact fun id' params' path hasks => h id' params' path ⟨f, compute, n, hget, hsource, hasks⟩

theorem instant_compute (hloop : Unlooped facts id params) (hget : facts.get? id = some f)
    (hfree : ∀ request, Relation.ReflTransGen (Asks facts) (id, params) request →
      ∀ key ∈ keys, ¬ HasKey facts key request)
    {answer : String → Json → Option String → Action Consultation Json}
    (h : ∀ keys, (∀ request, Relation.TransGen (Asks facts) (id, params) request →
      ∀ key ∈ keys, ¬ HasKey facts key request) →
        Instant (Still facts keys) (fun _ => True) (calculate answer f params)) :
    Instant (Still facts keys) (fun _ => True) (compute answer f params) := by
  refine Instant.state fun c hc => ?_
  cases hkey : c.almanac.keyOf? f params with
  | none => exact h keys fun _ hreaches => hfree _ hreaches.to_reflTransGen
  | some key =>
    have hown : HasKey facts key (id, params) := ⟨f, hget, cacheKey_of_keyOf? hkey⟩
    have hidle : c.isUnderway key = false := by
      have hnot : key ∉ keys := fun hmem => hfree _ .refl key hmem hown
      simpa [Consultation.isUnderway, hc.underway_eq] using hnot
    simp only [hidle]
    apply instant_keptOr
    apply instant_keep
    apply h
    intro request hreaches
    exact List.forall_mem_cons.2 ⟨hloop .refl hreaches hown, hfree _ hreaches.to_reflTransGen⟩

/-- A request does not wait while the keys underway are of none that it may lead to. -/
theorem instant_request (hunpaused : Unpaused facts) (hloop : Unlooped facts id params)
    (hfree : ∀ request, Relation.ReflTransGen (Asks facts) (id, params) request →
      ∀ key ∈ keys, ¬ HasKey facts key request) (depth : Nat) (path : Option String) :
    Instant (Still facts keys) (fun _ => True) (request depth id params path) := by
  induction depth generalizing keys id params path with
  | zero => exact instant_fail _
  | succ depth ih =>
    refine Instant.state fun c hc => ?_
    rw [hc.facts_eq]
    cases hget : facts.get? id with
    | none =>
      by_cases hallow : c.almanac.options.allowUndefinedFacts
      · simp only [if_pos hallow]
        exact .pure trivial
      · simp only [if_neg hallow]
        exact instant_fail _
    | some f =>
      refine Instant.bind (instant_compute hloop hget hfree ?_) fun v _ => .pure trivial
      intro keys hfree
      apply instant_calculate hunpaused hget
      intro id' params' path' hasks
      apply ih (hloop.of_asks hasks)
      exact fun request hreaches => hfree request (.head' hasks hreaches)

end Almanac
end Verdict
