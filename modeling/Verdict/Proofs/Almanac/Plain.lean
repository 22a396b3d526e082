import Verdict.Almanac
import Verdict.Evaluation

/-!
# Answers without a cache

`plain` answers a request for a fact by computing everything anew. If no fact depends on itself,
the answer is the same from some depth on, and the almanac computes at such a depth.
-/
namespace Verdict

namespace Computation
variable {answer answer' : String → Json → Option String → Except Fault Json} {c : Computation}

/-- What the computation ends with, given what it is answered. -/
def outcome (answer : String → Json → Option String → Except Fault Json) :
    Computation → Except Fault Json
  | done r => r
  | ask id params path next => outcome answer (next (answer id params path))
  | pause next => outcome answer next

/-- All that the computation asks, given what it is answered, is in `K`. -/
def Within (answer : String → Json → Option String → Except Fault Json)
    (K : String → Json → Prop) : Computation → Prop
  | done _ => True
  | ask id params path next => K id params ∧ Within answer K (next (answer id params path))
  | pause next => Within answer K next

/-- The computation asks for the fact, should it get certain answers before. -/
inductive Mentions : Computation → String → Prop
  | ask {id : String} {params : Json} {path : Option String}
      {next : Except Fault Json → Computation} : Mentions (.ask id params path next) id
  | next {id id' : String} {params : Json} {path : Option String}
      {next : Except Fault Json → Computation} (r : Except Fault Json)
      (h : Mentions (next r) id') : Mentions (.ask id params path next) id'
  | pause {next : Computation} {id : String} (h : Mentions next id) : Mentions (.pause next) id

/-- A fault that the computation is answered is what it ends with. -/
def Passes : Computation → Prop
  | done _ => True
  | ask _ _ _ next => (∀ e, next (.error e) = .done (.error e)) ∧ ∀ v, Passes (next (.ok v))
  | pause next => Passes next

theorem outcome_congr (h : ∀ id, c.Mentions id → answer id = answer' id) :
    c.outcome answer = c.outcome answer' := by
  induction c with
  | done r => rfl
  | ask id params path next ih =>
    rw [outcome, outcome, h id .ask]
    exact ih _ fun id' hm => h id' (.next _ hm)
  | pause next ih => exact ih fun id hm => h id (.pause hm)

theorem within_congr {K : String → Json → Prop} (h : ∀ id, c.Mentions id → answer id = answer' id)
    (hc : c.Within answer K) : c.Within answer' K := by
  induction c with
  | done r => trivial
  | ask id params path next ih =>
    refine ⟨hc.1, ?_⟩
    rw [← h id .ask]
    exact ih _ (fun id' hm => h id' (.next _ hm)) hc.2
  | pause next ih => exact ih (fun id hm => h id (.pause hm)) hc

/-- The requests are also for facts that the computation mentions. -/
theorem Within.mentioned {K : String → Json → Prop} {P : String → Prop}
    (hc : c.Within answer K) (h : ∀ id, c.Mentions id → P id) :
    c.Within answer fun id params => K id params ∧ P id := by
  induction c with
  | done r => trivial
  | ask id params path next ih =>
    exact ⟨⟨hc.1, h id .ask⟩, ih _ hc.2 fun id' hm => h id' (.next _ hm)⟩
  | pause next ih => exact ih hc fun id hm => h id (.pause hm)

theorem within_true (answer : String → Json → Option String → Except Fault Json)
    (c : Computation) : c.Within answer fun _ _ => True := by
  induction c with
  | done r => trivial
  | ask id params path next ih => exact ⟨trivial, ih _⟩
  | pause next ih => exact ih

/-- With more answers, a computation that passes on faults gives the same. -/
theorem Passes.outcome_mono (hc : c.Passes)
    (h : ∀ id params path v, answer id params path = .ok v → answer' id params path = .ok v)
    {v : Json} (hv : c.outcome answer = .ok v) : c.outcome answer' = .ok v := by
  induction c with
  | done r => exact hv
  | ask id params path next ih =>
    rw [outcome] at hv
    cases hanswer : answer id params path with
    | error e =>
      rw [hanswer, hc.1 e] at hv
      cases hv
    | ok w =>
      rw [hanswer] at hv
      rw [outcome, h id params path w hanswer]
      exact ih (.ok w) (hc.2 w) hv
  | pause next ih => exact ih hc hv

end Computation

/-- What a fact gives, however often it was computed before. -/
def Fact.outcome (answer : String → Json → Option String → Except Fault Json) (f : Fact)
    (params : Json) : Except Fault Json :=
  match f.source with
  | .constant v => .ok v
  | .dynamic compute => (compute 0 params).outcome answer

namespace Almanac
variable {facts : Table Fact} {allow : Bool}

/-- Answers a request as an almanac without a cache does. -/
def plain (facts : Table Fact) (allow : Bool) :
    Nat → String → Json → Option String → Except Fault Json
  | 0, id, _, _ => .error (.nestedTooDeep id)
  | depth + 1, id, params, path =>
    match facts.get? id with
    | some f => (f.outcome (plain facts allow depth) params).map (·.project path)
    | none => if allow then .ok .null else .error (.undefinedFact id)

/-- The computation of the first fact may ask for the second. -/
def DependsOn (facts : Table Fact) (id id' : String) : Prop :=
  ∃ f compute, facts.get? id = some f ∧ f.source = .dynamic compute ∧
    ∃ n params, (compute n params).Mentions id'

/-- No fact depends on itself. -/
def Acyclic (facts : Table Fact) : Prop := ∀ id, ¬ Relation.TransGen (DependsOn facts) id id

/-- What the fact depends on nests less than so deep. -/
def Deep (facts : Table Fact) : Nat → String → Prop
  | 0, _ => False
  | depth + 1, id => ∀ id', DependsOn facts id id' → Deep facts depth id'

theorem plain_eq_of_deep {depth depth' : Nat} {id : String} (h : Deep facts depth id)
    (h' : Deep facts depth' id) : plain facts allow depth id = plain facts allow depth' id := by
  induction depth generalizing depth' id with
  | zero => cases h
  | succ depth ih =>
    cases depth' with
    | zero => cases h'
    | succ depth' =>
      funext params path
      simp only [plain]
      cases hget : facts.get? id with
      | none => rfl
      | some f =>
        have hinner (compute : Nat → Json → Computation) (hsource : f.source = .dynamic compute) :
            (compute 0 params).outcome (plain facts allow depth) =
              (compute 0 params).outcome (plain facts allow depth') :=
          Computation.outcome_congr fun id' hm =>
            ih (h id' ⟨f, compute, hget, hsource, 0, params, hm⟩)
              (h' id' ⟨f, compute, hget, hsource, 0, params, hm⟩)
        cases hsource : f.source with
        | constant v => simp only [Fact.outcome, hsource]
        | dynamic compute => simp only [Fact.outcome, hsource, hinner compute hsource]

/-- Every step to a fact that another depends on leaves one name fewer that is not on the way. -/
theorem deep_of_way (hacyclic : Acyclic facts) {n : Nat} (way : List String) {id : String}
    (hway : ∀ id' ∈ way, Relation.TransGen (DependsOn facts) id' id)
    (hn : (facts.keys.filter fun k => !way.contains k).length ≤ n) : Deep facts (n + 1) id := by
  have hnew : id ∉ way := fun h => hacyclic id (hway id h)
  induction n generalizing way id with
  | zero =>
    rintro id' ⟨f, compute, hget, -⟩
    have hlt := Engine.length_filter_append_lt (Table.mem_keys_of_get? hget) hnew
    omega
  | succ n ih =>
    intro id' hdepends
    have hget := hdepends.choose_spec.choose_spec.1
    have hlt := Engine.length_filter_append_lt (Table.mem_keys_of_get? hget) hnew
    have hway' : ∀ id'' ∈ way ++ [id], Relation.TransGen (DependsOn facts) id'' id' := by
      intro id'' hmem
      rcases List.mem_append.1 hmem with hmem | hmem
      · exact (hway id'' hmem).tail hdepends
      · rw [List.mem_singleton.1 hmem]
        exact .single hdepends
    exact ih (way ++ [id]) hway' (by omega) fun h => hacyclic id' (hway' id' h)

theorem deep_of_acyclic (hacyclic : Acyclic facts) (id : String) :
    Deep facts (facts.size + 1) id := by
  refine deep_of_way hacyclic [] nofun ?_
  have hlength : facts.keys.length = facts.size := List.length_map _
  exact hlength ▸ List.length_filter_le _ _

/-- The answer to a request, if nothing is kept. -/
def answer (facts : Table Fact) (allow : Bool) :
    String → Json → Option String → Except Fault Json :=
  plain facts allow (facts.size + 1)

theorem plain_eq_answer (hacyclic : Acyclic facts) {depth : Nat} {id : String}
    (h : Deep facts depth id) : plain facts allow depth id = answer facts allow id :=
  plain_eq_of_deep h (deep_of_acyclic hacyclic id)

/-- What is answered without a fault where a fact that is not there is one, is answered the same
with more facts and deeper, if all computations pass on faults. -/
theorem plain_mono {facts' : Table Fact}
    (hpasses : ∀ {id f compute}, facts.get? id = some f → f.source = .dynamic compute →
      ∀ n params, (compute n params).Passes)
    (hfacts : ∀ {id f}, facts.get? id = some f → facts'.get? id = some f) {depth depth' : Nat}
    (hdepth : depth ≤ depth') {id : String} {params v : Json} {path : Option String}
    (hv : plain facts false depth id params path = .ok v) :
    plain facts' false depth' id params path = .ok v := by
  induction depth generalizing depth' id params path v with
  | zero => cases hv
  | succ depth ih =>
    obtain ⟨depth', rfl⟩ : ∃ d, depth' = d + 1 := ⟨depth' - 1, by omega⟩
    cases hget : facts.get? id with
    | none =>
      simp only [plain, hget] at hv
      cases hv
    | some f =>
      simp only [plain, hget] at hv
      simp only [plain, hfacts hget]
      cases hsource : f.source with
      | constant w => simpa only [Fact.outcome, hsource] using hv
      | dynamic compute =>
        simp only [Fact.outcome, hsource] at hv ⊢
        cases hw : (compute 0 params).outcome (plain facts false depth) with
        | error e =>
          rw [hw] at hv
          cases hv
        | ok w =>
          have hw' := (hpasses hget hsource 0 params).outcome_mono
            (fun _ _ _ _ hv => ih (Nat.le_of_succ_le_succ hdepth) hv) hw
          rwa [hw', ← hw]

end Almanac
end Verdict
