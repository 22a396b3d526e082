import Verdict.Proofs.Almanac.AtOnce
import Verdict.Proofs.Almanac.Cache
import Verdict.Proofs.Evaluation.Determined

/-!
# Rules together and alone

Rules that run together share the registry and the almanac, and what earlier ones left there is
found by later ones. Where the facts are predictable, no rule can tell: each ends as it would alone
with a new registry and a new almanac, in the order of the priorities.
-/
namespace Verdict
open Verdict.Action Verdict.Condition

/-- The second list has the rules of the first by falling priority, those of one priority in their
order. -/
structure Ranked (rules ordered : List Rule) : Prop where
  perm : ordered.Perm rules
  descending : ordered.Pairwise fun rule rule' => rule'.priority ≤ rule.priority
  stable : ∀ priority,
    ordered.filter (·.priority == priority) = rules.filter (·.priority == priority)

namespace Ranked

theorem mergeSort (rules : List Rule) :
    Ranked rules (rules.mergeSort fun rule rule' => decide (rule'.priority ≤ rule.priority)) := by
  have htrans (a b c : Rule) (hab : decide (b.priority ≤ a.priority) = true)
      (hbc : decide (c.priority ≤ b.priority) = true) :
      decide (c.priority ≤ a.priority) = true := by
    simp only [decide_eq_true_eq] at hab hbc ⊢
    exact Int64.le_trans hbc hab
  have htotal (a b : Rule) :
      (decide (b.priority ≤ a.priority) || decide (a.priority ≤ b.priority)) = true := by
    simp only [Bool.or_eq_true, decide_eq_true_eq]
    exact Int64.le_total _ _
  have hperm := List.mergeSort_perm rules fun rule rule' => decide (rule'.priority ≤ rule.priority)
  refine ⟨hperm, ?_, fun priority => ?_⟩
  · exact (List.pairwise_mergeSort htrans htotal rules).imp fun h => by simpa using h
  · -- rules of one priority are sorted as they are, so they stay a sublist
    have hsame : (rules.filter (·.priority == priority)).Pairwise
        fun rule rule' => decide (rule'.priority ≤ rule.priority) := by
      refine List.pairwise_of_forall_mem_list fun rule hrule rule' hrule' => ?_
      have he := (List.mem_filter.1 hrule).2
      have he' := (List.mem_filter.1 hrule').2
      simp only [beq_iff_eq] at he he'
      simp [he, he']
    have hsub := (List.sublist_mergeSort htrans htotal hsame List.filter_sublist).filter
      (·.priority == priority)
    rw [List.filter_filter] at hsub
    simp only [Bool.and_self] at hsub
    exact (hsub.eq_of_length (hperm.filter _).length_eq.symm).symm

variable {rule rule' : Rule} {l l' : List Rule}

theorem mem_of_filter_eq
    (h : ∀ priority, l.filter (·.priority == priority) = l'.filter (·.priority == priority))
    (hrule : rule ∈ l) : rule ∈ l' := by
  have hmem : rule ∈ l.filter (·.priority == rule.priority) := by simp [hrule]
  rw [h] at hmem
  exact (List.mem_filter.1 hmem).1

theorem head_priority_le
    (hl' : (rule' :: l').Pairwise fun rule rule' => rule'.priority ≤ rule.priority)
    (h : ∀ priority,
      (rule :: l).filter (·.priority == priority) = (rule' :: l').filter (·.priority == priority)) :
    rule.priority ≤ rule'.priority := by
  rcases List.mem_cons.1 (mem_of_filter_eq h List.mem_cons_self) with rfl | hmem
  · exact Int64.le_refl _
  · exact (List.pairwise_cons.1 hl').1 rule hmem

/-- Lists of falling priority are the same if they have the same rules of each priority. -/
theorem eq_of_filter_eq (hl : l.Pairwise fun rule rule' => rule'.priority ≤ rule.priority)
    (hl' : l'.Pairwise fun rule rule' => rule'.priority ≤ rule.priority)
    (h : ∀ priority, l.filter (·.priority == priority) = l'.filter (·.priority == priority)) :
    l = l' := by
  induction l generalizing l' with
  | nil =>
    cases l' with
    | nil => rfl
    | cons rule' l' => cases mem_of_filter_eq (fun p => (h p).symm) List.mem_cons_self
  | cons rule l ih =>
    cases l' with
    | nil => cases mem_of_filter_eq h List.mem_cons_self
    | cons rule' l' =>
      have hpriority : rule'.priority = rule.priority :=
        Int64.le_antisymm (head_priority_le hl fun p => (h p).symm) (head_priority_le hl' h)
      have hhead := h rule.priority
      rw [List.filter_cons_of_pos (by simp), List.filter_cons_of_pos (by simp [hpriority])] at hhead
      obtain ⟨rfl, -⟩ := List.cons.inj hhead
      refine congrArg (rule :: ·) (ih hl.of_cons hl'.of_cons fun priority => ?_)
      have hrest := h priority
      rw [List.filter_cons, List.filter_cons] at hrest
      split at hrest
      · exact (List.cons.inj hrest).2
      · exact hrest

/-- There is only one such order. -/
theorem unique {rules ordered ordered' : List Rule} (h : Ranked rules ordered)
    (h' : Ranked rules ordered') : ordered = ordered' :=
  eq_of_filter_eq h.descending h'.descending fun priority =>
    (h.stable priority).trans (h'.stable priority).symm

end Ranked

namespace Almanac
variable {K : String → Json → Prop} {facts : Table Fact} {options : AlmanacOptions}

/-- A new almanac with the same facts and options. -/
def renewed (a : Almanac) : Almanac := { Almanac.empty a.options with facts := a.facts }

theorem calm_of_cache_eq_empty (K : String → Json → Prop) {a : Almanac} (h : a.cache = .empty) :
    Calm K a.facts a.options [] { almanac := a } :=
  ⟨⟨rfl, rfl, h.symm ▸ faithful_empty _ _ _⟩, rfl⟩

theorem prompt_provider (h : Predictable K facts options.allowUndefinedFacts) :
    (provider (facts.size + 1)).Prompt (Calm K facts options []) K := by
  have hfact {id : String} {params : Json} (hK : K id params) (path : Option String) :
      Determined (Calm K facts options []) (fun _ => True)
        (request (facts.size + 1) id params path) :=
    (ends_request h (deep_of_acyclic h.acyclic id) hK path (free_nil K facts id)).determined
  refine ⟨hfact, fun {v} hv => ?_, fun {c c'} hc hc' => ?_⟩
  · cases hreference : FactReference.ofJson? v with
    | some reference =>
      have hK : K reference.id reference.params :=
        hv (reference.id, reference.params) (by simp [Json.requests, hreference])
      simpa only [provider, hreference] using hfact hK reference.path
    | none =>
      simp only [provider, hreference]
      exact .pure trivial
  · simp only [provider, hc.facts_eq, hc'.facts_eq]

theorem predictable_relayRun :
    Predictable relayRequests (factsAfter .empty relayRun) true where
  regular := orderly_relayRun.regular List.prefix_rfl
  acyclic := acyclic_relayRun List.prefix_rfl
  unpaused hget hsource params := by
    obtain ⟨-, rfl⟩ := dynamic_relayRun List.prefix_rfl hget hsource
    exact fun _ => trivial
  closed := orderly_relayRun.closed _ List.prefix_rfl
  apart := apart_relayRequests

end Almanac

namespace Engine

/-- Rules that run together do not influence each other. If the cache of the almanac is empty in
the beginning and the facts are predictable for what the rules ask, the rules end one after the
other, by falling priority and those of one priority in the order given, as each does alone with
the same registrations and facts: all give their reports, or the first fault is that of all. -/
theorem executeAll_alone {K : String → Json → Prop} (defaults : Bool) (calls : List Registry.Call)
    (e : Engine) (rules : List Rule) (a : Almanac) (hcache : a.cache = .empty)
    (hfacts : Almanac.Predictable K a.facts a.options.allowUndefinedFacts)
    (hrules : ∀ rule ∈ rules, Covers K (e.requests rule)) :
    let p := Almanac.provider a.depth
    let alone := fun rule => ((e.execute p rule).run
      ⟨Registry.run defaults (calls.filter Registry.Call.registers), { almanac := a.renewed }⟩).1
    (∃ ordered, Ranked rules ordered) ∧ ∀ ordered, Ranked rules ordered →
      ((e.executeAll p rules).run ⟨Registry.run defaults calls, { almanac := a }⟩).1 =
        ordered.mapM alone := by
  intro p alone
  have hsort := Ranked.mergeSort rules
  refine ⟨⟨_, hsort⟩, fun ordered hordered => ?_⟩
  have hcomposed := Registry.composed_run defaults calls
  have hp : p.Prompt (Almanac.Calm K a.facts a.options []) K := Almanac.prompt_provider hfacts
  rw [hordered.unique hsort]
  refine executeAll_eq_mapM hp e hrules
    ⟨hcomposed.coherent, hcomposed.decorators_eq, Almanac.calm_of_cache_eq_empty K hcache⟩
    ⟨(Registry.wellNamed_run _ _).coherent, rfl, ?_⟩
  exact Almanac.calm_of_cache_eq_empty K (a := a.renewed) rfl

/-- Of two rules the second runs first, and leaves the other one its facts. -/
theorem executeAll_alone_relay :
    let a : Almanac := { Almanac.empty ⟨true, true⟩ with
      facts := Almanac.factsAfter .empty Almanac.relayRun }
    let e : Engine := ⟨.empty, {}⟩
    let heading : Heading := ⟨1, none, .empty⟩
    let five : Leaf := .ofComparison "x" "not:equal" (.ofInt64 5)
    let same : Leaf := .ofComparison "x" "not:equal" (.object (.ofList [("fact", .string "d")]))
    let low : Rule := ⟨some "low", 1, .group .any heading [.leaf five], ⟨"differs", none⟩⟩
    let high : Rule := ⟨some "high", 2, .not heading (.leaf same), ⟨"agrees", none⟩⟩
    let p := Almanac.provider a.depth
    let alone := fun rule => ((e.execute p rule).run
      ⟨Registry.run true [], { almanac := a.renewed }⟩).1
    a.cache = .empty ∧ Almanac.Predictable Almanac.relayRequests a.facts true ∧
      (∀ rule ∈ [low, high], Covers Almanac.relayRequests (e.requests rule)) ∧
      Ranked [low, high] [high, low] ∧
      ((e.executeAll p [low, high]).run
        ⟨Registry.run true [.resolve "not:equal"], { almanac := a }⟩).1 =
          [high, low].mapM alone := by
  intro a e heading five same low high p alone
  have hlow : e.requests low = [("x", .null)] := by
    rw [requests, expand, List.map_cons, expand]
    rfl
  have hhigh : e.requests high = [("x", .null), ("d", .null)] := by
    rw [requests, expand, expand]
    rfl
  have hrules : ∀ rule ∈ [low, high], Covers Almanac.relayRequests (e.requests rule) := by
    refine List.forall_mem_cons.2 ⟨?_, List.forall_mem_singleton.2 ?_⟩
    · rw [hlow]
      exact List.forall_mem_singleton.2 ⟨.inr rfl, rfl⟩
    · rw [hhigh]
      exact List.forall_mem_cons.2 ⟨⟨.inr rfl, rfl⟩, List.forall_mem_singleton.2 ⟨.inl rfl, rfl⟩⟩
  have hranked : Ranked [low, high] [high, low] := by
    refine ⟨.swap _ _ _, by decide, fun priority => ?_⟩
    by_cases hfirst : high.priority = priority
    · subst hfirst
      rfl
    · simp [List.filter_cons, hfirst]
  exact ⟨rfl, Almanac.predictable_relayRun, hrules, hranked,
    (executeAll_alone true [.resolve "not:equal"] e [low, high] a rfl Almanac.predictable_relayRun
      hrules).2 _ hranked⟩

end Engine
end Verdict
