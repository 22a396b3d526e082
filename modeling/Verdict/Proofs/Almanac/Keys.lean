import Mathlib.Data.List.Nodup
import Verdict.Proofs.Action.Together
import Verdict.Proofs.Almanac.Period
import Verdict.Proofs.Almanac.Undefined
import Verdict.Proofs.Json.Readable

/-!
# Default keys tell requests apart

The default key of a request is the digest of a text from which its name and its parameters can be
read. As long as no two of these texts collide, a value that is kept belongs to one request. So
whatever holds of each request and the value computed for it holds of what is served from the cache.
-/
namespace Verdict
open Verdict.Action

theorem Fact.defaultKey_inj {id id' : String} {params params' : Json} :
    defaultKey id params = defaultKey id' params' ↔ id = id' ∧ params = params' := by
  refine ⟨fun h => ?_, fun ⟨hid, hparams⟩ => hid ▸ hparams ▸ rfl⟩
  have hmember (key : String) := congrArg (fun v : Json => v.member? key) h
  have hid := hmember "id"
  have hparams := hmember "params"
  simp [defaultKey, Json.member?, Json.toObject?, Table.ofList, Table.insertAll,
    Table.get?_insert] at hid hparams
  exact ⟨hid, hparams⟩

variable {K : String → Json → Prop} {R : String → Json → Json → Prop} {allow : Bool}

/-- No two of the texts that requests of `K` are digested from have one digest. -/
def CollisionFree (K : String → Json → Prop) : Prop :=
  ∀ ⦃id params id' params'⦄, K id params → K id' params' →
    Digest.sha256 (Fact.defaultKey id params).text =
      Digest.sha256 (Fact.defaultKey id' params').text →
    (Fact.defaultKey id params).text = (Fact.defaultKey id' params').text

theorem CollisionFree.apart (h : CollisionFree K) : Almanac.Apart K :=
  fun _ _ _ _ hK hK' hdigest => Fact.defaultKey_inj.1 (Json.text_injective (h hK hK' hdigest))

theorem Fact.digest_of_cacheKey {f : Fact} (hf : f.keyOf = defaultKey) {params : Json}
    {key : String} (h : f.cacheKey params = some key) : (defaultKey f.id params).digest = key := by
  rw [cacheKey, hf] at h
  split at h
  · exact Option.some.inj h
  · cases h

theorem CollisionFree.eq_of_cacheKey_eq (h : CollisionFree K) {f f' : Fact} {params params' : Json}
    (hf : f.keyOf = Fact.defaultKey) (hf' : f'.keyOf = Fact.defaultKey)
    (hcache : f.options.cache = true) (hK : K f.id params) (hK' : K f'.id params')
    (he : f.cacheKey params = f'.cacheKey params') : f.id = f'.id ∧ params = params' := by
  have hkey : f.cacheKey params = some (Fact.defaultKey f.id params).digest := by
    rw [Fact.cacheKey, if_pos hcache, hf]
  exact h.apart hK hK' (Fact.digest_of_cacheKey hf' (he ▸ hkey)).symm

/-! What holds of a request and the value that is computed for it. -/

/-- The answer is a value that `R` admits for the request, or null if the fact may be missing. -/
def Fits (R : String → Json → Json → Prop) (missing : Prop) (id : String) (params : Json)
    (path : Option String) (v : Json) : Prop :=
  (∃ w, R id params w ∧ v = w.project path) ∨ missing ∧ v = .null

theorem Fits.imp {missing missing' : Prop} {id : String} {params v : Json} {path : Option String}
    (h : Fits R missing id params path v) (himp : missing → missing') :
    Fits R missing' id params path v :=
  Or.imp_right (fun h => ⟨himp h.1, h.2⟩) h

/-- The computation only asks what is in `K`. If every answer fits its request, it ends with a value
in `P` or a fault. -/
def Computation.Upholds (K : String → Json → Prop) (R : String → Json → Json → Prop)
    (allow : Bool) (P : Json → Prop) : Computation → Prop
  | done r => Meets P (fun _ => True) r
  | ask id params path next => K id params ∧
      ∀ r, Meets (Fits R (allow = true) id params path) (fun _ => True) r →
        Upholds K R allow P (next r)
  | pause next => Upholds K R allow P next

/-- What the fact gives for the parameters is admitted by `R`. -/
def Fact.Upholds (K : String → Json → Prop) (R : String → Json → Json → Prop) (allow : Bool)
    (f : Fact) (params : Json) : Prop :=
  match f.source with
  | .constant v => R f.id params v
  | .dynamic compute => ∀ n, (compute n params).Upholds K R allow (R f.id params)

theorem Computation.Upholds.ensures_run {σ : Type} {I : σ → Prop} {P : Json → Prop}
    {answer : String → Json → Option String → Action σ Json}
    (hanswer : ∀ id params path, K id params →
      Ensures I (Fits R (allow = true) id params path) (fun _ => True) (answer id params path))
    {c : Computation} (hc : c.Upholds K R allow P) :
    Ensures I P (fun _ => True) (c.run answer) := by
  induction c with
  | done r => exact hc
  | ask id params path next ih =>
    exact (hanswer id params path hc.1).andThen fun r hr => ih r (hc.2 r hr)
  | pause next ih => exact ih hc

namespace Almanac
variable {facts : Table Fact} {options : AlmanacOptions}

/-- The facts have default keys and stand under their names. -/
def Keyed (facts : Table Fact) : Prop :=
  ∀ ⦃id f⦄, facts.get? id = some f → f.id = id ∧ f.keyOf = Fact.defaultKey

/-- For requests of `K`, the facts only give what `R` admits, if they are answered so. -/
def Upheld (K : String → Json → Prop) (R : String → Json → Json → Prop) (facts : Table Fact)
    (allow : Bool) : Prop :=
  ∀ ⦃id params f⦄, facts.get? id = some f → K id params → f.Upholds K R allow params

/-- Each value that is kept belongs to a request of `K`, for which `R` admits it. -/
def Belongs (K : String → Json → Prop) (R : String → Json → Json → Prop) (cache : Table Json) :
    Prop :=
  ∀ ⦃key v⦄, cache.get? key = some v →
    ∃ id params, K id params ∧ (Fact.defaultKey id params).digest = key ∧ R id params v

structure Held (K : String → Json → Prop) (R : String → Json → Json → Prop) (facts : Table Fact)
    (options : AlmanacOptions) (c : Consultation) : Prop where
  facts_eq : c.almanac.facts = facts
  options_eq : c.almanac.options = options
  belongs : Belongs K R c.almanac.cache

theorem belongs_empty (K : String → Json → Prop) (R : String → Json → Json → Prop) :
    Belongs K R .empty := by
  intro key v hv
  cases hv

theorem Belongs.insert {cache : Table Json} (h : Belongs K R cache) {id : String} {params v : Json}
    (hK : K id params) (hv : R id params v) :
    Belongs K R (cache.insert (Fact.defaultKey id params).digest v) := by
  intro key w hw
  rcases Table.get?_insert_eq_some_iff.1 hw with ⟨rfl, rfl⟩ | ⟨-, hw⟩
  · exact ⟨id, params, hK, rfl, hv⟩
  · exact h hw

/-- What is kept under the key of a request is what `R` admits for this request. -/
theorem Belongs.admits {cache : Table Json} (h : Belongs K R cache) (hapart : Apart K)
    {id : String} {params v : Json} (hK : K id params)
    (hv : cache.get? (Fact.defaultKey id params).digest = some v) : R id params v := by
  obtain ⟨id', params', hK', hdigest, hR⟩ := h hv
  obtain ⟨rfl, rfl⟩ := hapart hK' hK hdigest
  exact hR

theorem ensures_compute_admitted (hapart : Apart K) {f : Fact} (hf : f.keyOf = Fact.defaultKey)
    {params : Json} (hK : K f.id params)
    {answer : String → Json → Option String → Action Consultation Json}
    (h : Ensures (Held K R facts options) (R f.id params) (fun _ => True)
      (calculate answer f params)) :
    Ensures (Held K R facts options) (R f.id params) (fun _ => True)
      (compute answer f params) := by
  refine Ensures.compute (fun key hkey c hc v hv => ?_)
    (fun key c hc => ⟨hc.facts_eq, hc.options_eq, hc.belongs⟩) (fun key hkey c r hc hr => ?_) h
  · obtain rfl := Fact.digest_of_cacheKey hf hkey
    exact hc.belongs.admits hapart hK hv
  · obtain rfl := Fact.digest_of_cacheKey hf hkey
    cases r with
    | error e => exact ⟨hc.facts_eq, hc.options_eq, hc.belongs⟩
    | ok v => exact ⟨hc.facts_eq, hc.options_eq, hc.belongs.insert hK hr⟩

theorem ensures_calculate_admitted {f : Fact} {params : Json}
    (hf : f.Upholds K R options.allowUndefinedFacts params)
    {answer : String → Json → Option String → Action Consultation Json}
    (hanswer : ∀ id params path, K id params → Ensures (Held K R facts options)
      (Fits R (options.allowUndefinedFacts = true) id params path) (fun _ => True)
      (answer id params path)) :
    Ensures (Held K R facts options) (R f.id params) (fun _ => True)
      (calculate answer f params) := by
  unfold Fact.Upholds at hf
  unfold calculate
  cases hsource : f.source with
  | constant v =>
    rw [hsource] at hf
    exact Ensures.pure hf
  | dynamic compute =>
    rw [hsource] at hf
    have hbegin : Ensures (Held K R facts options) (fun _ => True) (fun _ => True)
        (beginCall f.id) :=
      fun c hc => ⟨⟨hc.facts_eq, hc.options_eq, hc.belongs⟩, trivial⟩
    exact hbegin.bind fun n _ => (hf n).ensures_run hanswer

/-- Null is answered for the fact, as it is not there. -/
def Missing (facts : Table Fact) (options : AlmanacOptions) (id : String) : Prop :=
  facts.get? id = none ∧ options.allowUndefinedFacts = true

/-- A request is answered what fits it, from the cache or not, whatever else is asked meanwhile. -/
theorem ensures_request_fits (hapart : Apart K) (hkeyed : Keyed facts)
    (hupheld : Upheld K R facts options.allowUndefinedFacts) (depth : Nat) (id : String)
    (params : Json) (path : Option String) (hK : K id params) :
    Ensures (Held K R facts options) (Fits R (Missing facts options id) id params path)
      (fun _ => True) (request depth id params path) := by
  induction depth generalizing id params path with
  | zero => exact True.intro
  | succ depth ih =>
    refine Ensures.state.bind fun c hc => ?_
    rw [hc.facts_eq, hc.options_eq]
    cases hget : facts.get? id with
    | some f =>
      obtain ⟨rfl, hf⟩ := hkeyed hget
      have hcompute := ensures_compute_admitted hapart hf hK
        (ensures_calculate_admitted (hupheld hget hK) fun id' params' path' hK' =>
          (ih id' params' path' hK').mono (fun _ hv => hv.imp And.right) fun _ => id)
      exact hcompute.bind fun v hv => Ensures.pure (.inl ⟨v, hv, rfl⟩)
    | none =>
      cases hallow : options.allowUndefinedFacts with
      | true => exact Ensures.pure (.inr ⟨⟨hget, hallow⟩, rfl⟩)
      | false => exact True.intro

/-! Runs. -/

variable {a : Almanac} {op : Operation} {n : Nat} {x : Action Consultation Json}

/-- What an operation asks is a request, or nothing has to be asked for it. -/
theorem question?_eq_some (hx : op.question? n = some x) :
    (∃ id params path, op.request? = some (id, params) ∧ x = request n id params path) ∨
      ∃ v, x = pure v := by
  cases op with
  | factValue id params path =>
    cases hx
    exact .inl ⟨id, params, path, rfl, rfl⟩
  | getValue v =>
    cases hx
    cases hreference : FactReference.ofJson? v with
    | some r =>
      refine .inl ⟨r.id, r.params, r.path, ?_, ?_⟩
      · rw [Operation.request?, hreference, Option.map_some]
      · simp only [provider, hreference]
    | none => exact .inr ⟨v, by simp only [provider, hreference]⟩
  | _ => cases hx

theorem perform_of_question? (hx : op.question? a.depth = some x) :
    a.perform op = a.consult x := by
  cases op with
  | factValue id params path =>
    cases hx
    rfl
  | getValue v =>
    cases hx
    rfl
  | _ => cases hx

theorem since_consult (hx : op.question? n = some x) :
    (a.consult x).2.facts = a.facts ∧ (a.consult x).2.options = a.options := by
  have hensures : Ensures (Consultation.Since a) (fun _ => True) (fun _ => True) x := by
    rcases question?_eq_some hx with ⟨id, params, path, -, rfl⟩ | ⟨v, rfl⟩
    · exact ensures_request (fun _ _ => trivial) (fun _ _ => trivial) (fun _ => trivial) n _ _ _
    · exact Ensures.pure trivial
  have hsince := (hensures.run (Consultation.Since.refl { almanac := a })).2
  exact ⟨hsince.facts_eq, hsince.options_eq⟩

/-- What the facts uphold, some of the facts uphold. -/
theorem Upheld.of_insert {f : Fact} (h : Upheld K R (facts.insert f.id f) allow)
    (hnew : facts.get? f.id = none) : Upheld K R facts allow :=
  fun _ _ _ hget hK => h (Table.get?_insert_of_new hnew hget f) hK

/-- Whatever the facts uphold holds of all that is kept. -/
def HoldsOwn (K : String → Json → Prop) (a : Almanac) : Prop :=
  ∀ R, Upheld K R a.facts a.options.allowUndefinedFacts → Belongs K R a.cache

theorem HoldsOwn.consult (ha : HoldsOwn K a) (hapart : Apart K) (hkeyed : Keyed a.facts)
    (hx : op.question? n = some x)
    (hrequested : ∀ id params, op.request? = some (id, params) → K id params) :
    HoldsOwn K (a.consult x).2 := by
  intro R hupheld
  rw [(since_consult hx).1, (since_consult hx).2] at hupheld
  have hensures : Ensures (Held K R a.facts a.options) (fun _ => True) (fun _ => True) x := by
    rcases question?_eq_some hx with ⟨id, params, path, hrequest, rfl⟩ | ⟨v, rfl⟩
    · exact (ensures_request_fits hapart hkeyed hupheld n id params path
        (hrequested id params hrequest)).mono (fun _ _ => trivial) fun _ _ => trivial
    · exact Ensures.pure trivial
  exact (hensures.run ⟨rfl, rfl, ha R hupheld⟩).2.belongs

theorem HoldsOwn.addFact (ha : HoldsOwn K a) (f : Fact) : HoldsOwn K (a.addFact f) := by
  intro R hupheld
  unfold Almanac.addFact at hupheld ⊢
  by_cases hcontains : a.facts.contains f.id = true
  · rw [if_pos hcontains]
    exact belongs_empty K R
  · rw [if_neg hcontains] at hupheld ⊢
    have hnew : a.facts.get? f.id = none := by simpa [Table.contains] using hcontains
    exact ha R (hupheld.of_insert hnew)

theorem HoldsOwn.perform (ha : HoldsOwn K a) (hapart : Apart K) (hkeyed : Keyed a.facts)
    (hrequested : ∀ id params, op.request? = some (id, params) → K id params) :
    HoldsOwn K (a.perform op).2 := by
  cases hx : op.question? a.depth with
  | some x =>
    rw [perform_of_question? hx]
    exact ha.consult hapart hkeyed hx hrequested
  | none =>
    cases hclears : op.clears a.facts with
    | true =>
      intro R _
      rw [cache_perform_of_clears hclears]
      exact belongs_empty K R
    | false =>
      rcases perform_of_not_clears hx hclears with ⟨f, -, hadded⟩ | hsame
      · exact hadded ▸ ha.addFact f
      · exact hsame.symm ▸ ha

theorem facts_perform (a : Almanac) (op : Operation) :
    (a.perform op).2.facts = op.update a.facts := by
  cases hregistered : op.registered? with
  | some f =>
    rw [perform_of_registered hregistered, update_of_registered hregistered]
    unfold Almanac.addFact
    split <;> rfl
  | none =>
    cases op with
    | addFact f => cases hregistered
    | addRuntimeFact id value =>
      cases hmake : Fact.constant id value with
      | ok f => simp [Operation.registered?, hmake, Except.toOption] at hregistered
      | error e =>
        simp only [Operation.update, hregistered, perform, addRuntimeFact, hmake]
        rfl
    | removeFact id =>
      simp only [Operation.update, hregistered, perform, removeFact]
      split <;> rfl
    | clearCache => rfl
    | factValue id params path =>
      have hx : (Operation.factValue id params path).question? a.depth = some _ := rfl
      exact (since_consult hx).1
    | getValue v =>
      have hx : (Operation.getValue v).question? a.depth = some _ := rfl
      exact (since_consult hx).1

theorem Keyed.update (h : Keyed facts)
    (hop : ∀ f, op.registered? = some f → f.keyOf = Fact.defaultKey) :
    Keyed (op.update facts) := by
  intro id f hget
  rcases get?_update hget with hget | ⟨hregistered, hid⟩
  · exact h hget
  · exact ⟨hid, hop f hregistered⟩

/-- The run registers facts with default keys, and asks for what is in `K`. -/
structure Confined (K : String → Json → Prop) (ops : List Operation) : Prop where
  keyOf_eq : ∀ op ∈ ops, ∀ f, op.registered? = some f → f.keyOf = Fact.defaultKey
  requested : ∀ op ∈ ops, ∀ id params, op.request? = some (id, params) → K id params

theorem HoldsOwn.after {ops : List Operation} (ha : HoldsOwn K a) (hapart : Apart K)
    (hkeyed : Keyed a.facts) (hops : Confined K ops) :
    HoldsOwn K (a.after ops) ∧ Keyed (a.after ops).facts := by
  induction ops generalizing a with
  | nil => exact ⟨ha, hkeyed⟩
  | cons op rest ih =>
    have hkeyed' : Keyed (a.perform op).2.facts := by
      rw [facts_perform]
      exact hkeyed.update (hops.keyOf_eq op List.mem_cons_self)
    exact ih (ha.perform hapart hkeyed (hops.requested op List.mem_cons_self)) hkeyed'
      ⟨fun op' hop' => hops.keyOf_eq op' (List.mem_cons_of_mem op hop'),
        fun op' hop' => hops.requested op' (List.mem_cons_of_mem op hop')⟩

theorem holdsOwn_run {ops : List Operation} (hapart : Apart K) (hops : Confined K ops)
    (options : AlmanacOptions) :
    HoldsOwn K ((empty options).after ops) ∧ Keyed ((empty options).after ops).facts :=
  HoldsOwn.after (fun R _ => belongs_empty K R) hapart nofun hops

/-- Default keys tell requests apart, down to the kinds of the numbers in their parameters. So every
request of a run, alone or with others at once, is answered by what its own fact gives for its own
parameters, be that kept or computed. -/
theorem requests_unconfused (hfree : CollisionFree K) :
    (∀ (f f' : Fact) (params params' : Json), f.keyOf = Fact.defaultKey →
      f'.keyOf = Fact.defaultKey → f.options.cache = true →
        K f.id params → K f'.id params' → f.cacheKey params = f'.cacheKey params' →
          f.id = f'.id ∧ params = params') ∧
      ∀ options ops, Confined K ops →
        let a := (empty options).after ops
        ∀ R, Upheld K R a.facts a.options.allowUndefinedFacts →
          (∀ id params path, K id params → ∀ v,
            (a.perform (.factValue id params path)).1 = some (.ok v) →
              Fits R (Missing a.facts a.options id) id params path v) ∧
          ∀ requests : List (String × Json × Option String), (∀ r ∈ requests, K r.1 r.2.1) →
            ∀ vs, ((together requests.length (requests.map fun (id, params, path) =>
                request a.depth id params path)).run { almanac := a }).1 = .ok vs →
              ∀ (i : Nat) id params path v, requests[i]? = some (id, params, path) →
                vs[i]? = some v →
                Fits R (Missing a.facts a.options id) id params path v := by
  refine ⟨fun f f' params params' hf hf' hcache hK hK' he =>
    hfree.eq_of_cacheKey_eq hf hf' hcache hK hK' he, fun options ops hops => ?_⟩
  obtain ⟨hholds, hkeyed⟩ := holdsOwn_run hfree.apart hops options
  intro a R hupheld
  have hheld : Held K R a.facts a.options { almanac := a } := ⟨rfl, rfl, hholds R hupheld⟩
  have hensures := ensures_request_fits hfree.apart hkeyed hupheld a.depth
  refine ⟨fun id params path hK v hv => ?_,
    fun requests hrequests vs hvs i id params path v hr hv => ?_⟩
  · exact ((hensures id params path hK).run hheld).1.of_eq_ok (Option.some.inj hv)
  · have heach (i : Nat) (x : Action Consultation Json)
        (hx : (requests.map fun (id, params, path) => request a.depth id params path)[i]? =
          some x) :
        Ensures (Held K R a.facts a.options) (fun v => ∀ id params path,
          requests[i]? = some (id, params, path) →
            Fits R (Missing a.facts a.options id) id params path v) (fun _ => True) x := by
      rw [List.getElem?_map, Option.map_eq_some_iff] at hx
      obtain ⟨⟨id, params, path⟩, hr, rfl⟩ := hx
      have hK := hrequests _ (List.mem_of_getElem? hr)
      refine (hensures id params path hK).mono (fun v hv id' params' path' hr' => ?_) fun _ h => h
      cases hr.symm.trans hr'
      exact hv
    have htogether := Ensures.together requests.length _ heach
    exact ((htogether.run hheld).1.of_eq_ok hvs).2 i v hv id params path hr

/-- A fact that gives its name and the parameters that it is asked with. -/
def echo (id : String) : Fact :=
  ⟨id, .dynamic fun _ params => .done (.ok (.array [.string id, params])), {}, Fact.defaultKey⟩

def one : Number := .ofInt64 1

def oneAsDouble : Number := .double one.toDouble

/-- Two facts, one of them asked with an integer and with the double of the same value. -/
def echoRequests : List (String × Json) :=
  [("d", .number one), ("d", .number oneAsDouble), ("e", .number one)]

def echoRun : List Operation :=
  [.addFact (echo "d"), .addFact (echo "e"), .factValue "d" (.number one) none,
    .factValue "e" (.number one) none]

theorem collisionFree_of_nodup {l : List (String × Json)}
    (h : (l.map fun r => (Fact.defaultKey r.1 r.2).digest).Nodup) :
    CollisionFree fun id params => (id, params) ∈ l := by
  intro id params id' params' hmem hmem' hdigest
  have he := List.inj_on_of_nodup_map h hmem hmem' hdigest
  cases he
  rfl

set_option maxRecDepth 4000 in
theorem nodup_echoRequests :
    (echoRequests.map fun r => (Fact.defaultKey r.1 r.2).digest).Nodup := by
  decide +kernel

theorem confined_echoRun : Confined (fun id params => (id, params) ∈ echoRequests) echoRun := by
  constructor
  · intro op hop f hf
    simp only [echoRun, List.mem_cons, List.not_mem_nil, or_false] at hop
    rcases hop with rfl | rfl | rfl | rfl <;> cases hf <;> rfl
  · intro op hop id params h
    simp only [echoRun, List.mem_cons, List.not_mem_nil, or_false] at hop
    rcases hop with rfl | rfl | rfl | rfl <;> cases h <;> simp [echoRequests]

theorem facts_after (a : Almanac) (ops : List Operation) :
    (a.after ops).facts = factsAfter a.facts ops := by
  induction ops generalizing a with
  | nil => rfl
  | cons op rest ih =>
    have hrest := ih (a.perform op).2
    rw [facts_perform] at hrest
    exact hrest

/-- The echo of a request is told by its name and its parameters. -/
theorem upheld_echoRun (options : AlmanacOptions) :
    Upheld (fun id params => (id, params) ∈ echoRequests)
      (fun id params v => v = .array [.string id, params])
      ((empty options).after echoRun).facts
      ((empty options).after echoRun).options.allowUndefinedFacts := by
  intro id params f hget _
  rw [facts_after] at hget
  obtain ⟨op, hop, hf, -⟩ := (get?_factsAfter hget).resolve_left nofun
  simp only [echoRun, List.mem_cons, List.not_mem_nil, or_false] at hop
  rcases hop with rfl | rfl | rfl | rfl <;> cases hf <;> exact fun _ => rfl

theorem requests_unconfused_echo :
    CollisionFree (fun id params => (id, params) ∈ echoRequests) ∧
      (echo "d").cacheKey (.number one) ≠ (echo "d").cacheKey (.number oneAsDouble) ∧
      ∀ v, (((empty ⟨false, true⟩).after echoRun).perform
          (.factValue "d" (.number oneAsDouble) none)).1 = some (.ok v) →
        v = .array [.string "d", .number oneAsDouble] := by
  have hfree := collisionFree_of_nodup nodup_echoRequests
  obtain ⟨hkeys, hruns⟩ := requests_unconfused hfree
  refine ⟨hfree, fun he => ?_, fun v hv => ?_⟩
  · obtain ⟨-, hparams⟩ := hkeys (echo "d") (echo "d") _ _ rfl rfl rfl
      (by simp [echoRequests, echo]) (by simp [echoRequests, echo]) he
    cases hparams
  · obtain ⟨halone, -⟩ := hruns ⟨false, true⟩ echoRun confined_echoRun _ (upheld_echoRun _)
    rcases halone "d" _ none (by simp [echoRequests]) v hv with ⟨w, rfl, rfl⟩ | ⟨hmissing, rfl⟩
    · rfl
    · have hthere : (factsAfter .empty echoRun).get? "d" = some (echo "d") := rfl
      exact absurd hmissing.1 (by rw [facts_after]; exact hthere ▸ nofun)

end Almanac
end Verdict
