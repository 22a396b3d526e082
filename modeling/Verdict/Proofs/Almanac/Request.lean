import Verdict.Proofs.Almanac.Ensures
import Verdict.Proofs.Almanac.Plain
import Verdict.Proofs.Provider

/-!
# Requests to an almanac

While every kept value is the answer to its request, a request yields what it is answered
without a cache, and so is every value that it keeps.
-/
namespace Verdict
open Verdict.Action

theorem Computation.yields_run {σ : Type} {I : σ → Prop} {K : String → Json → Prop}
    {plain : String → Json → Option String → Except Fault Json}
    {answer : String → Json → Option String → Action σ Json} {c : Computation}
    (hc : c.Within plain K)
    (h : ∀ id params path, K id params → Yields I (plain id params path) (answer id params path)) :
    Yields I (c.outcome plain) (c.run answer) := by
  induction c with
  | done r => exact yields_done I r
  | ask id params path next ih => exact (h id params path hc.1).andThen (ih _ hc.2)
  | pause next ih => exact ih hc

/-- The fact has the default key, and gives the same for the same parameters and answers, however
often it was computed. -/
structure Fact.Ordinary (f : Fact) : Prop where
  keyOf_eq : f.keyOf = Fact.defaultKey
  compute_eq : ∀ {compute}, f.source = .dynamic compute →
    ∀ n params, compute n params = compute 0 params

namespace Almanac

/-- Every fact is ordinary and stands under its name. -/
structure Regular (facts : Table Fact) : Prop where
  id_eq : ∀ {id f}, facts.get? id = some f → f.id = id
  ordinary : ∀ {id f}, facts.get? id = some f → f.Ordinary

/-- Different requests of `K` have different keys. -/
def Apart (K : String → Json → Prop) : Prop :=
  ∀ ⦃id params id' params'⦄, K id params → K id' params' →
    (Fact.defaultKey id params).digest = (Fact.defaultKey id' params').digest →
      id = id' ∧ params = params'

/-- With a request of `K`, all that its computation asks is in `K`. -/
def Closed (K : String → Json → Prop) (facts : Table Fact) (allow : Bool) : Prop :=
  ∀ ⦃id params f compute⦄, K id params → facts.get? id = some f → f.source = .dynamic compute →
    (compute 0 params).Within (answer facts allow) K

/-- Under the key, the value is kept for the request, which is in `K`. -/
structure Kept (K : String → Json → Prop) (facts : Table Fact) (cache : Table Json) (id : String)
    (params : Json) (key : String) (v : Json) : Prop where
  requested : K id params
  key_eq : ∃ f, facts.get? id = some f ∧ f.cacheKey params = some key
  get?_eq : cache.get? key = some v

/-- Every value that is kept is the answer to the request it is kept for. -/
def Faithful (K : String → Json → Prop) (facts : Table Fact) (allow : Bool)
    (cache : Table Json) : Prop :=
  ∀ ⦃key v⦄, cache.get? key = some v →
    ∃ id params, Kept K facts cache id params key v ∧ answer facts allow id params none = .ok v

/-- What stays as it is while requests are answered. -/
structure Steady (K : String → Json → Prop) (facts : Table Fact) (options : AlmanacOptions)
    (c : Consultation) : Prop where
  facts_eq : c.almanac.facts = facts
  options_eq : c.almanac.options = options
  faithful : Faithful K facts options.allowUndefinedFacts c.almanac.cache

variable {K : String → Json → Prop} {facts : Table Fact} {options : AlmanacOptions}

theorem Regular.digest_eq (hregular : Regular facts) {id key : String} {params : Json} {f : Fact}
    (hget : facts.get? id = some f) (hkey : f.cacheKey params = some key) :
    (Fact.defaultKey id params).digest = key := by
  simp only [Fact.cacheKey, (hregular.ordinary hget).keyOf_eq, hregular.id_eq hget] at hkey
  split at hkey
  · exact Option.some.inj hkey
  · cases hkey

/-- A value that is kept under the key of a request is its answer. -/
theorem Faithful.answer_eq {allow : Bool} {cache : Table Json} (h : Faithful K facts allow cache)
    (hregular : Regular facts) (hapart : Apart K) {id key : String} {params v : Json} {f : Fact}
    (hK : K id params) (hget : facts.get? id = some f) (hkey : f.cacheKey params = some key)
    (hv : cache.get? key = some v) : answer facts allow id params none = .ok v := by
  obtain ⟨id', params', hkept, hanswer⟩ := h hv
  obtain ⟨f', hget', hkey'⟩ := hkept.key_eq
  have hdigest := (hregular.digest_eq hget hkey).trans (hregular.digest_eq hget' hkey').symm
  obtain ⟨rfl, rfl⟩ := hapart hK hkept.requested hdigest
  exact hanswer

theorem Faithful.insert {allow : Bool} {cache : Table Json} {f : Fact} {id key : String}
    {params v : Json} (h : Faithful K facts allow cache) (hK : K id params)
    (hget : facts.get? id = some f) (hkey : f.cacheKey params = some key)
    (hv : answer facts allow id params none = .ok v) :
    Faithful K facts allow (cache.insert key v) := by
  intro key' v' hv'
  rcases Table.get?_insert_eq_some_iff.1 hv' with ⟨rfl, rfl⟩ | ⟨-, hold⟩
  · exact ⟨id, params, ⟨hK, ⟨f, hget, hkey⟩, hv'⟩, hv⟩
  · obtain ⟨id', params', hkept, hanswer⟩ := h hold
    exact ⟨id', params', ⟨hkept.requested, hkept.key_eq, hv'⟩, hanswer⟩

theorem yields_calculate {f : Fact} {params : Json}
    {plain : String → Json → Option String → Except Fault Json}
    {answer : String → Json → Option String → Action Consultation Json}
    (hf : f.Ordinary)
    (h : ∀ compute, f.source = .dynamic compute → Yields (Steady K facts options)
      ((compute 0 params).outcome plain) ((compute 0 params).run answer)) :
    Yields (Steady K facts options) (f.outcome plain params) (calculate answer f params) := by
  cases hsource : f.source with
  | constant v =>
    simp only [Fact.outcome, calculate, hsource]
    exact yields_done _ (.ok v)
  | dynamic compute =>
    simp only [Fact.outcome, calculate, hsource]
    have hbegin : Ensures (Steady K facts options) (fun _ => True)
        (fun e => (compute 0 params).outcome plain = .error e) (beginCall f.id) :=
      fun c hc => ⟨⟨hc.facts_eq, hc.options_eq, hc.faithful⟩, trivial⟩
    refine hbegin.bind fun n _ => ?_
    rw [hf.compute_eq hsource n params]
    exact h compute hsource

theorem yields_compute {f : Fact} {id : String} {params : Json} {r : Except Fault Json}
    {answer : String → Json → Option String → Action Consultation Json}
    (hregular : Regular facts) (hapart : Apart K) (hK : K id params)
    (hget : facts.get? id = some f)
    (hr : Almanac.answer facts options.allowUndefinedFacts id params none = r)
    (hx : Yields (Steady K facts options) r (calculate answer f params)) :
    Yields (Steady K facts options) r (compute answer f params) := by
  refine Ensures.compute (fun key hkey c hc v hv => ?_)
    (fun key c hc => ⟨hc.facts_eq, hc.options_eq, hc.faithful⟩) (fun key hkey c r' hc hr' => ?_) hx
  · exact hr.symm.trans (hc.faithful.answer_eq hregular hapart hK hget hkey hv)
  · obtain rfl := eq_of_meets hr'
    cases r with
    | error e => exact ⟨hc.facts_eq, hc.options_eq, hc.faithful⟩
    | ok v => exact ⟨hc.facts_eq, hc.options_eq, hc.faithful.insert hK hget hkey hr⟩

theorem map_project_none (r : Except Fault Json) : r.map (·.project none) = r := by
  cases r <;> rfl

theorem yields_request_succ {depth : Nat} {id : String} {params : Json}
    (h : ∀ f, facts.get? id = some f → Yields (Steady K facts options)
      (f.outcome (plain facts options.allowUndefinedFacts depth) params)
      (compute (request depth) f params)) (path : Option String) :
    Yields (Steady K facts options)
      (plain facts options.allowUndefinedFacts (depth + 1) id params path)
      (request (depth + 1) id params path) := by
  refine Ensures.state.bind fun c hc => ?_
  rw [hc.facts_eq, hc.options_eq]
  cases hget : facts.get? id with
  | none =>
    simp only [plain, hget]
    split
    · exact yields_done _ (.ok Json.null)
    · exact yields_done _ (.error (.undefinedFact id))
  | some f =>
    simp only [plain, hget]
    refine ((h f hget).mono (fun _ h => h) fun e he => ?_).bind fun v hv => Ensures.pure ?_
    · rw [he]
      rfl
    · rw [hv]
      rfl

/-- With a cache, a request of `K` yields its answer. -/
theorem yields_request (hregular : Regular facts) (hacyclic : Acyclic facts) (hapart : Apart K)
    (hclosed : Closed K facts options.allowUndefinedFacts) {depth : Nat} {id : String}
    {params : Json} (hdeep : Deep facts depth id) (hK : K id params) (path : Option String) :
    Yields (Steady K facts options) (answer facts options.allowUndefinedFacts id params path)
      (request depth id params path) := by
  induction depth generalizing id params path with
  | zero => cases hdeep
  | succ depth ih =>
    rw [← plain_eq_answer hacyclic hdeep]
    refine yields_request_succ (fun f hget => ?_) path
    have hr : answer facts options.allowUndefinedFacts id params none =
        f.outcome (plain facts options.allowUndefinedFacts depth) params := by
      rw [← plain_eq_answer hacyclic hdeep]
      simp only [plain, hget]
      exact map_project_none _
    refine yields_compute hregular hapart hK hget hr ?_
    refine yields_calculate (hregular.ordinary hget) fun compute hsource => ?_
    have hdeep' (id' : String) (hm : (compute 0 params).Mentions id') : Deep facts depth id' :=
      hdeep id' ⟨f, compute, hget, hsource, 0, params, hm⟩
    have hwithin := Computation.within_congr
      (fun id' hm => (plain_eq_answer hacyclic (hdeep' id' hm)).symm) (hclosed hK hget hsource)
    refine Computation.yields_run (hwithin.mentioned hdeep') fun id' params' path' h => ?_
    rw [plain_eq_answer hacyclic h.2]
    exact ih h.2 h.1 path'

theorem yields_request_uncached (hregular : Regular facts) (hcache : options.factCache = false)
    (depth : Nat) (id : String) (params : Json) (path : Option String) :
    Yields (Steady K facts options)
      (plain facts options.allowUndefinedFacts depth id params path)
      (request depth id params path) := by
  induction depth generalizing id params path with
  | zero => exact yields_done _ (.error (.nestedTooDeep id))
  | succ depth ih =>
    refine yields_request_succ (fun f hget => ?_) path
    refine Ensures.state.bind fun c hc => ?_
    have hkey : c.almanac.keyOf? f params = none := by
      rw [keyOf?, hc.options_eq, hcache]
      rfl
    simp only [hkey]
    exact yields_calculate (hregular.ordinary hget) fun compute _ =>
      Computation.yields_run (Computation.within_true _ _) fun id' params' path' _ =>
        ih id' params' path'

end Almanac
end Verdict
