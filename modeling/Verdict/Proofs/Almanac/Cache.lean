import Verdict.Proofs.Almanac.Run

/-!
# Transparency of the cache

Runs of a new almanac with and without a cache. They are answered alike just if no value that is
kept is spoiled, which nothing does where a fact that is not there is a fault that all computations
pass on. Where it is null, a fact that comes in late spoils what was computed without it.
-/
namespace Verdict
open Verdict.Action

namespace Almanac
variable {K : String → Json → Prop}

/-- The run registers ordinary facts, and at no time does a fact depend on itself. All that it asks,
and all that is asked for that, is in `K`, where different requests have different keys. -/
structure Orderly (K : String → Json → Prop) (allow : Bool) (ops : List Operation) : Prop where
  ordinary : ∀ op ∈ ops, ∀ f, op.registered? = some f → f.Ordinary
  acyclic : ∀ pre, pre <+: ops → Acyclic (factsAfter .empty pre)
  requested : ∀ op ∈ ops, ∀ id params, op.request? = some (id, params) → K id params
  closed : ∀ pre, pre <+: ops → Closed K (factsAfter .empty pre) allow
  apart : Apart K

theorem Orderly.regular {allow : Bool} {ops pre : List Operation} (h : Orderly K allow ops)
    (hpre : pre <+: ops) : Regular (factsAfter .empty pre) := by
  have hregistered {id : String} {f : Fact} (hget : (factsAfter .empty pre).get? id = some f) :
      ∃ op ∈ pre, op.registered? = some f ∧ f.id = id :=
    (get?_factsAfter hget).resolve_left nofun
  constructor
  · intro id f hget
    obtain ⟨op, -, -, hid⟩ := hregistered hget
    exact hid
  · intro id f hget
    obtain ⟨op, hop, hf, -⟩ := hregistered hget
    exact h.ordinary op (hpre.subset hop) f hf

theorem Orderly.of_prefix {allow : Bool} {ops pre : List Operation} (h : Orderly K allow ops)
    (hpre : pre <+: ops) : Orderly K allow pre where
  ordinary op hop := h.ordinary op (hpre.subset hop)
  acyclic pre' hpre' := h.acyclic pre' (hpre'.trans hpre)
  requested op hop := h.requested op (hpre.subset hop)
  closed pre' hpre' := h.closed pre' (hpre'.trans hpre)
  apart := h.apart

/-- A request of `K` may be made at any time of an orderly run. -/
theorem Orderly.asked {allow : Bool} {ops : List Operation} (h : Orderly K allow ops)
    {id : String} {params : Json} (hK : K id params) (path : Option String) :
    Orderly K allow (ops ++ [.factValue id params path]) := by
  have hfacts {pre : List Operation} (hpre : pre <+: ops ++ [.factValue id params path]) :
      ∃ pre', pre' <+: ops ∧ factsAfter .empty pre = factsAfter .empty pre' := by
    rcases List.prefix_concat_iff.1 hpre with rfl | hpre
    · exact ⟨ops, List.prefix_rfl, by rw [factsAfter, List.foldl_append]; rfl⟩
    · exact ⟨pre, hpre, rfl⟩
  refine ⟨fun op hop => ?_, fun pre hpre => ?_, fun op hop => ?_, fun pre hpre => ?_, h.apart⟩
  · rcases List.mem_append.1 hop with hop | hop
    · exact h.ordinary op hop
    · rw [List.mem_singleton.1 hop]
      exact nofun
  · obtain ⟨pre', hpre', he⟩ := hfacts hpre
    exact he ▸ h.acyclic pre' hpre'
  · rcases List.mem_append.1 hop with hop | hop
    · exact h.requested op hop
    · rw [List.mem_singleton.1 hop]
      rintro _ _ ⟨⟩
      exact hK
  · obtain ⟨pre', hpre', he⟩ := hfacts hpre
    exact he ▸ h.closed pre' hpre'

theorem Orderly.yields_cached {allow : Bool} {ops : List Operation} (h : Orderly K allow ops)
    (pre : List Operation) (op : Operation) (hpre : pre ++ [op] <+: ops) (id : String)
    (params : Json) (hrequest : op.request? = some (id, params)) (path : Option String) :
    Yields (Steady K (factsAfter .empty pre) ⟨allow, true⟩)
      (answer (factsAfter .empty pre) allow id params path)
      (request ((factsAfter .empty pre).size + 1) id params path) := by
  have hmem : op ∈ ops := hpre.subset (by simp)
  have hpre' : pre <+: ops := (List.prefix_append pre [op]).trans hpre
  exact yields_request (h.regular hpre') (h.acyclic pre hpre') h.apart (h.closed pre hpre')
    (deep_of_acyclic (h.acyclic pre hpre') id) (h.requested op hmem id params hrequest) path

theorem Orderly.steady_cached {allow : Bool} {ops : List Operation} (h : Orderly K allow ops)
    (hspoils : ∀ pre op, pre ++ [op] <+: ops → ¬ Spoils K ((empty ⟨allow, true⟩).after pre) op) :
    (empty ⟨allow, true⟩).answers ops = plainAnswers .empty allow ops ∧
      Steady K (factsAfter .empty ops) ⟨allow, true⟩
        { almanac := (empty ⟨allow, true⟩).after ops } :=
  steady_run (steady_empty _ _) h.yields_cached hspoils

/-- Without a cache, every run is answered by the facts that are registered at each time. -/
theorem Orderly.steady_uncached {allow : Bool} {ops : List Operation} (h : Orderly K allow ops) :
    (empty ⟨allow, false⟩).answers ops = plainAnswers .empty allow ops ∧
      Steady (fun _ _ => False) (factsAfter .empty ops) ⟨allow, false⟩
        { almanac := (empty ⟨allow, false⟩).after ops } := by
  refine steady_run (steady_empty _ _) (fun pre op hpre id params _ path => ?_)
    fun pre op _ hspoils => ?_
  · have hpre' : pre <+: ops := (List.prefix_append pre [op]).trans hpre
    exact yields_request_uncached (h.regular hpre') rfl _ id params path
  · obtain ⟨_, -, -, _, _, _, _, hkept, -⟩ := hspoils
    exact hkept.requested

theorem Orderly.answers_eq {allow : Bool} {ops : List Operation} (h : Orderly K allow ops)
    (hspoils : ∀ pre op, pre ++ [op] <+: ops → ¬ Spoils K ((empty ⟨allow, true⟩).after pre) op) :
    (empty ⟨allow, true⟩).answers ops = (empty ⟨allow, false⟩).answers ops :=
  (h.steady_cached hspoils).1.trans h.steady_uncached.1.symm

/-- What holds of a step of a run if it holds of all steps before, holds of every step. -/
theorem step_of_earlier {ops : List Operation} {P : List Operation → Operation → Prop}
    (h : ∀ pre op, pre ++ [op] <+: ops → (∀ pre' op', pre' ++ [op'] <+: pre → P pre' op') →
      P pre op) (pre : List Operation) (op : Operation) (hpre : pre ++ [op] <+: ops) :
    P pre op := by
  induction hn : pre.length using Nat.strongRecOn generalizing pre op with
  | ind n ih =>
    refine h pre op hpre fun pre' op' hpre' => ?_
    have hlength := hpre'.length_le
    rw [List.length_append, List.length_singleton] at hlength
    exact ih pre'.length (by omega) pre' op'
      ((hpre'.trans (List.prefix_append pre [op])).trans hpre) rfl

/-- The cache changes no answer where a fact that is not there is a fault, and all computations pass
on the faults that they are answered. -/
theorem Orderly.answers_eq_of_passes {ops : List Operation} (h : Orderly K false ops)
    (hpasses : ∀ op ∈ ops, ∀ f compute, op.registered? = some f → f.source = .dynamic compute →
      ∀ n params, (compute n params).Passes) :
    (empty ⟨false, true⟩).answers ops = (empty ⟨false, false⟩).answers ops := by
  refine h.answers_eq (step_of_earlier fun pre op hpre hbefore => ?_)
  have hpre' : pre <+: ops := (List.prefix_append pre [op]).trans hpre
  have hsteady := ((h.of_prefix hpre').steady_cached hbefore).2
  rintro ⟨f, -, hnew, id, params, key, v, hkept, hne⟩
  have hfacts : ((empty ⟨false, true⟩).after pre).facts = factsAfter .empty pre := hsteady.facts_eq
  have hoptions : ((empty ⟨false, true⟩).after pre).options = ⟨false, true⟩ := hsteady.options_eq
  rw [hfacts] at hkept hnew
  rw [hfacts, hoptions] at hne
  obtain ⟨f', hget, hkey⟩ := hkept.key_eq
  have hv := hsteady.faithful.answer_eq (h.regular hpre') h.apart hkept.requested hget hkey
    hkept.get?_eq
  refine hne (plain_mono (fun hget hsource => ?_)
    (fun hget => Table.get?_insert_of_new hnew hget f)
    (Nat.succ_le_succ (Table.size_le_size_insert _ f.id f)) hv)
  obtain ⟨op', hop', hf, -⟩ := (get?_factsAfter hget).resolve_left nofun
  exact hpasses op' (hpre'.subset hop') _ _ hf hsource

/-- What a run is answered does not depend on the cache, unless a fact comes in under a new name by
which a value that is kept is no longer an answer. And where one does, a request shows it: just
if nothing is spoiled, every request at every time is answered alike with and without a cache. -/
theorem answers_cached_iff {allow : Bool} {ops : List Operation} (h : Orderly K allow ops) :
    let cached := empty ⟨allow, true⟩
    let uncached := empty ⟨allow, false⟩
    let spoilsNothing := ∀ pre op, pre ++ [op] <+: ops → ¬ Spoils K (cached.after pre) op
    (spoilsNothing → cached.answers ops = uncached.answers ops) ∧
      (spoilsNothing ↔ ∀ pre, pre <+: ops → ∀ id params path, K id params →
        cached.answers (pre ++ [.factValue id params path]) =
          uncached.answers (pre ++ [.factValue id params path])) := by
  intro cached uncached spoilsNothing
  refine ⟨h.answers_eq, fun hspoils pre hpre id params path hK => ?_, fun hask => ?_⟩
  · refine ((h.of_prefix hpre).asked hK path).answers_eq fun pre' op hpre' => ?_
    rcases List.prefix_concat_iff.1 hpre' with he | hpre'
    · rintro ⟨f, hregistered, -⟩
      rw [(List.cons.inj (List.append_inj' he rfl).2).1] at hregistered
      cases hregistered
    · exact hspoils pre' op (hpre'.trans hpre)
  · refine step_of_earlier fun pre op hpre hbefore hspoils => ?_
    have horderly := h.of_prefix ((List.prefix_append pre [op]).trans hpre)
    have hregular : Regular (op.update (factsAfter .empty pre)) := by
      have hregular := h.regular hpre
      rwa [factsAfter, List.foldl_append] at hregular
    obtain ⟨id, params, hK, hne⟩ := answers_ne_of_spoils (horderly.steady_cached hbefore).2
      horderly.steady_uncached.2 hregular hspoils
    obtain ⟨f, hregistered, -⟩ := hspoils
    have hsame := hask (pre ++ [op]) hpre id params none hK
    have hop (a : Almanac) : (a.after pre).answers [op] = [] := by
      simp only [answers, perform_of_registered hregistered]
      rfl
    have hafter (a : Almanac) : a.after (pre ++ [op]) = ((a.after pre).perform op).2 := by
      rw [after, List.foldl_append]
      rfl
    simp only [answers_append, hop, hafter, cached, uncached, horderly.answers_eq hbefore] at hsame
    exact hne (List.append_cancel_left hsame)

/-- A fact that passes on what the fact `x` gives. -/
def relay : Fact := ⟨"d", .dynamic fun _ params => .ask "x" params none .done, {}, Fact.defaultKey⟩

/-- A value is asked for while `x` is not there, and again after `x` came in. -/
def relayRun : List Operation :=
  [.addFact relay, .factValue "d" .null none, .addRuntimeFact "x" (.ofInt64 5),
    .factValue "d" .null none]

def relayRequests (id : String) (params : Json) : Prop := (id = "d" ∨ id = "x") ∧ params = .null

theorem registered_relayRun {op : Operation} (hop : op ∈ relayRun) {f : Fact}
    (h : op.registered? = some f) :
    f = relay ∨ f = ⟨"x", .constant (.ofInt64 5), {}, Fact.defaultKey⟩ := by
  simp only [relayRun, List.mem_cons, List.not_mem_nil, or_false] at hop
  rcases hop with rfl | rfl | rfl | rfl
  · exact .inl (Option.some.inj h).symm
  · cases h
  · exact .inr (Option.some.inj h).symm
  · cases h

theorem dynamic_relayRun {pre : List Operation} (hpre : pre <+: relayRun) {id : String} {f : Fact}
    {compute : Nat → Json → Computation} (hget : (factsAfter .empty pre).get? id = some f)
    (hsource : f.source = .dynamic compute) :
    id = "d" ∧ compute = fun _ params => .ask "x" params none .done := by
  obtain ⟨op, hop, hf, rfl⟩ := (get?_factsAfter hget).resolve_left nofun
  rcases registered_relayRun (hpre.subset hop) hf with rfl | rfl
  · cases hsource
    exact ⟨rfl, rfl⟩
  · cases hsource

/-- Only `d` depends on a fact, and only on `x`. -/
theorem acyclic_relayRun {pre : List Operation} (hpre : pre <+: relayRun) :
    Acyclic (factsAfter .empty pre) := by
  have hdepends {id id' : String} (h : DependsOn (factsAfter .empty pre) id id') :
      id = "d" ∧ id' = "x" := by
    obtain ⟨f, compute, hget, hsource, n, params, hmentions⟩ := h
    obtain ⟨rfl, rfl⟩ := dynamic_relayRun hpre hget hsource
    cases hmentions with
    | ask => exact ⟨rfl, rfl⟩
    | next r h => cases h
  have hends {id id' : String} (h : Relation.TransGen (DependsOn (factsAfter .empty pre)) id id') :
      id = "d" ∧ id' = "x" := by
    induction h with
    | single h => exact hdepends h
    | tail _ h ih => exact ⟨ih.1, (hdepends h).2⟩
  intro id hcycle
  obtain ⟨rfl, h⟩ := hends hcycle
  exact absurd h (by decide)

theorem apart_relayRequests : Apart relayRequests := by
  have hne : (Fact.defaultKey "d" .null).digest ≠ (Fact.defaultKey "x" .null).digest := by
    decide +kernel
  rintro id params id' params' ⟨hid, rfl⟩ ⟨hid', rfl⟩ hdigest
  refine ⟨?_, rfl⟩
  rcases hid with rfl | rfl <;> rcases hid' with rfl | rfl
  · rfl
  · exact absurd hdigest hne
  · exact absurd hdigest.symm hne
  · rfl

theorem orderly_relayRun : Orderly relayRequests true relayRun where
  ordinary op hop f hf := by
    rcases registered_relayRun hop hf with rfl | rfl
    · refine ⟨rfl, fun h => ?_⟩
      cases h
      exact fun _ _ => rfl
    · exact ⟨rfl, nofun⟩
  acyclic _ hpre := acyclic_relayRun hpre
  requested op hop id params h := by
    simp only [relayRun, List.mem_cons, List.not_mem_nil, or_false] at hop
    rcases hop with rfl | rfl | rfl | rfl <;> cases h <;> exact ⟨.inl rfl, rfl⟩
  closed pre hpre := by
    intro id params f compute hK hget hsource
    obtain ⟨rfl, rfl⟩ := dynamic_relayRun hpre hget hsource
    exact ⟨⟨.inr rfl, hK.2⟩, trivial⟩
  apart := apart_relayRequests

set_option maxRecDepth 2000 in
theorem cached_relayRun :
    (empty ⟨true, true⟩).answers relayRun = [.ok .null, .ok .null] := by
  with_unfolding_all rfl

theorem uncached_relayRun :
    (empty ⟨true, false⟩).answers relayRun = [.ok .null, .ok (.ofInt64 5)] := rfl

theorem relayRun_spoils :
    Orderly relayRequests true relayRun ∧ ¬ ∀ pre op, pre ++ [op] <+: relayRun →
      ¬ Spoils relayRequests ((empty ⟨true, true⟩).after pre) op := by
  refine ⟨orderly_relayRun, fun hspoils => ?_⟩
  have he := (answers_cached_iff orderly_relayRun).1 hspoils
  rw [cached_relayRun, uncached_relayRun] at he
  have hnull : Json.null = .number (.ofInt64 5) :=
    Except.ok.inj (List.cons.inj (List.cons.inj he).2).1
  nomatch hnull

/-- An orderly run for which the cache is not transparent: it gives a value from before `x`. -/
theorem relayRun_stale :
    Orderly relayRequests true relayRun ∧
      (empty ⟨true, true⟩).answers relayRun = [.ok .null, .ok .null] ∧
      (empty ⟨true, false⟩).answers relayRun = [.ok .null, .ok (.ofInt64 5)] :=
  ⟨orderly_relayRun, cached_relayRun, uncached_relayRun⟩

end Almanac
end Verdict
