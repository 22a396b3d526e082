import Verdict.Proofs.Almanac.Moves
import Verdict.Proofs.Almanac.Request

/-!
# Runs of an almanac

Any operations on an almanac. As long as no fact comes in under a new name with which a value that
is kept is no longer the answer to its request, every request gets the answer of the facts that
are registered then. Where one does, asking for that value again shows it.
-/
namespace Verdict
open Verdict.Action

/-- An operation on an almanac. -/
inductive Operation where
  | addFact (f : Fact)
  | addRuntimeFact (id : String) (value : Json)
  | removeFact (id : String)
  | clearCache
  | factValue (id : String) (params : Json) (path : Option String)
  | getValue (v : Json)

namespace Operation

/-- The fact that the operation registers. -/
def registered? : Operation → Option Fact
  | addFact f => some f
  | addRuntimeFact id value => (Fact.constant id value).toOption
  | _ => none

/-- The name and the parameters that the operation asks for. -/
def request? : Operation → Option (String × Json)
  | factValue id params _ => some (id, params)
  | getValue v => (FactReference.ofJson? v).map fun r => (r.id, r.params)
  | _ => none

/-- The facts after the operation. -/
def update (facts : Table Fact) (op : Operation) : Table Fact :=
  match op.registered?, op with
  | some f, _ => facts.insert f.id f
  | none, removeFact id => if facts.contains id then facts.erase id else facts
  | none, _ => facts

/-- What the operation is answered without a cache, if it asks. -/
def answer? (facts : Table Fact) (allow : Bool) : Operation → Option (Except Fault Json)
  | factValue id params path => some (Almanac.answer facts allow id params path)
  | getValue v =>
    match FactReference.ofJson? v with
    | some r => some (Almanac.answer facts allow r.id r.params r.path)
    | none => some (.ok v)
  | _ => none

end Operation

namespace Almanac

/-- Carries out an action that has the almanac to itself. -/
def consult (a : Almanac) (action : Action Consultation Json) :
    Option (Except Fault Json) × Almanac :=
  let (r, c) := action.run { almanac := a }
  (some r, c.almanac)

/-- What the operation is answered, if it asks, and the almanac afterwards. -/
def perform (a : Almanac) : Operation → Option (Except Fault Json) × Almanac
  | .addFact f => (none, a.addFact f)
  | .addRuntimeFact id value => (none, (a.addRuntimeFact id value).toOption.getD a)
  | .removeFact id => (none, (a.removeFact id).2)
  | .clearCache => (none, a.clearCache)
  | .factValue id params path => a.consult ((provider a.depth).factValue id params path)
  | .getValue v => a.consult ((provider a.depth).value v)

def after (a : Almanac) (ops : List Operation) : Almanac :=
  ops.foldl (fun a op => (a.perform op).2) a

/-- The answers to all that the operations ask. -/
def answers (a : Almanac) : List Operation → List (Except Fault Json)
  | [] => []
  | op :: rest => (a.perform op).1.toList ++ answers (a.perform op).2 rest

def factsAfter (facts : Table Fact) (ops : List Operation) : Table Fact :=
  ops.foldl Operation.update facts

/-- The answers to all that the operations ask, if nothing is kept. -/
def plainAnswers (facts : Table Fact) (allow : Bool) : List Operation → List (Except Fault Json)
  | [] => []
  | op :: rest => (op.answer? facts allow).toList ++ plainAnswers (op.update facts) allow rest

/-- The operation registers a fact under a new name, and with that fact some value that is kept
is not the answer to its request. -/
def Spoils (K : String → Json → Prop) (a : Almanac) (op : Operation) : Prop :=
  ∃ f, op.registered? = some f ∧ a.facts.get? f.id = none ∧
    ∃ id params key v, Kept K a.facts a.cache id params key v ∧
      answer (a.facts.insert f.id f) a.options.allowUndefinedFacts id params none ≠ .ok v

variable {K : String → Json → Prop} {facts : Table Fact} {options : AlmanacOptions}
variable {a : Almanac}

theorem steady_consult {action : Action Consultation Json} {r : Except Fault Json}
    (h : Yields (Steady K facts options) r action) (ha : Steady K facts options { almanac := a }) :
    (a.consult action).1 = some r ∧
      Steady K facts options { almanac := (a.consult action).2 } := by
  obtain ⟨hr, hsteady⟩ := h.run ha
  exact ⟨congrArg some hr, hsteady.facts_eq, hsteady.options_eq, hsteady.faithful⟩

theorem faithful_empty (K : String → Json → Prop) (facts : Table Fact) (allow : Bool) :
    Faithful K facts allow .empty := by
  intro key v hv
  cases hv

theorem steady_empty (K : String → Json → Prop) (options : AlmanacOptions) :
    Steady K .empty options { almanac := empty options } :=
  ⟨rfl, rfl, faithful_empty _ _ _⟩

theorem Kept.insert {cache : Table Json} {id key : String} {params v : Json}
    (h : Kept K facts cache id params key v) {f : Fact} (hnew : facts.get? f.id = none) :
    Kept K (facts.insert f.id f) cache id params key v := by
  obtain ⟨f', hget, hkey⟩ := h.key_eq
  exact ⟨h.requested, ⟨f', Table.get?_insert_of_new hnew hget f, hkey⟩, h.get?_eq⟩

theorem steady_addFact (ha : Steady K facts options { almanac := a }) {f : Fact}
    (hanswer : facts.get? f.id = none → ∀ id params key v, Kept K facts a.cache id params key v →
      answer (facts.insert f.id f) options.allowUndefinedFacts id params none = .ok v) :
    Steady K (facts.insert f.id f) options { almanac := a.addFact f } := by
  have hfacts : a.facts = facts := ha.facts_eq
  have hoptions : a.options = options := ha.options_eq
  subst hfacts hoptions
  unfold addFact
  by_cases hcontains : a.facts.contains f.id = true
  · simp only [if_pos hcontains]
    exact ⟨rfl, rfl, faithful_empty _ _ _⟩
  · simp only [if_neg hcontains]
    have hnew : a.facts.get? f.id = none := by simpa [Table.contains] using hcontains
    refine ⟨rfl, rfl, fun key v hv => ?_⟩
    obtain ⟨id, params, hkept, -⟩ := ha.faithful hv
    exact ⟨id, params, hkept.insert hnew, hanswer hnew id params key v hkept⟩

theorem perform_of_registered {op : Operation} {f : Fact} (h : op.registered? = some f) :
    a.perform op = (none, a.addFact f) := by
  cases op with
  | addFact f' =>
    cases h
    rfl
  | addRuntimeFact id value =>
    cases hmake : Fact.constant id value with
    | ok f' =>
      simp only [Operation.registered?, hmake] at h
      cases h
      simp only [perform, addRuntimeFact, hmake]
      rfl
    | error e =>
      simp only [Operation.registered?, hmake] at h
      cases h
  | _ => cases h

theorem update_of_registered {op : Operation} {f : Fact} (h : op.registered? = some f) :
    op.update facts = facts.insert f.id f := by
  simp only [Operation.update, h]

theorem get?_update {op : Operation} {id : String} {f : Fact}
    (h : (op.update facts).get? id = some f) :
    facts.get? id = some f ∨ op.registered? = some f ∧ f.id = id := by
  cases hregistered : op.registered? with
  | some f' =>
    rw [update_of_registered hregistered] at h
    rcases Table.get?_insert_eq_some_iff.1 h with ⟨rfl, rfl⟩ | ⟨-, h⟩
    · exact .inr ⟨rfl, rfl⟩
    · exact .inl h
  | none =>
    refine .inl ?_
    cases op with
    | addFact f => cases hregistered
    | removeFact id' =>
      simp only [Operation.update, hregistered] at h
      split at h
      · exact (Table.get?_retain_eq_some_iff.1 h).2
      · exact h
    | _ => simpa only [Operation.update, hregistered] using h

/-- A fact that is there was there before, or was registered under its name. -/
theorem get?_factsAfter {ops : List Operation} {id : String} {f : Fact}
    (h : (factsAfter facts ops).get? id = some f) :
    facts.get? id = some f ∨ ∃ op ∈ ops, op.registered? = some f ∧ f.id = id := by
  induction ops generalizing facts with
  | nil => exact .inl h
  | cons op rest ih =>
    rcases ih h with h | ⟨op', hop', h⟩
    · exact (get?_update h).imp_right fun h => ⟨op, List.mem_cons_self, h⟩
    · exact .inr ⟨op', List.mem_cons_of_mem op hop', h⟩

/-- A value yields the answer to the request that it makes, or else itself. -/
theorem yields_value {v : Json} {depth : Nat} {r : Except Fault Json}
    (hr : (Operation.getValue v).answer? facts options.allowUndefinedFacts = some r)
    (hyields : ∀ id params, (Operation.getValue v).request? = some (id, params) → ∀ path,
      Yields (Steady K facts options) (answer facts options.allowUndefinedFacts id params path)
        (request depth id params path)) :
    Yields (Steady K facts options) r ((provider depth).value v) := by
  cases hreference : FactReference.ofJson? v with
  | some reference =>
    have hrequest : (Operation.getValue v).request? = some (reference.id, reference.params) := by
      simp only [Operation.request?, hreference, Option.map_some]
    simp only [Operation.answer?, hreference] at hr
    cases hr
    simpa only [provider, hreference] using hyields _ _ hrequest reference.path
  | none =>
    simp only [Operation.answer?, hreference] at hr
    cases hr
    simp only [provider, hreference]
    exact yields_done _ (.ok v)

/-- An operation is answered by the facts that are registered then. Afterwards every value that
is kept is an answer, unless the operation spoils one. -/
theorem steady_perform (ha : Steady K facts options { almanac := a }) {op : Operation}
    (hyields : ∀ id params, op.request? = some (id, params) → ∀ path,
      Yields (Steady K facts options) (answer facts options.allowUndefinedFacts id params path)
        (request (facts.size + 1) id params path))
    (hspoils : ¬ Spoils K a op) :
    (a.perform op).1 = op.answer? facts options.allowUndefinedFacts ∧
      Steady K (op.update facts) options { almanac := (a.perform op).2 } := by
  have hfacts : a.facts = facts := ha.facts_eq
  have hoptions : a.options = options := ha.options_eq
  have hdepth : a.depth = facts.size + 1 := by rw [depth, hfacts]
  have hadd {f : Fact} (hregistered : op.registered? = some f) :
      Steady K (op.update facts) options { almanac := (a.perform op).2 } := by
    rw [perform_of_registered hregistered, update_of_registered hregistered]
    subst hfacts hoptions
    refine steady_addFact ha fun hnew id params key v hkept => ?_
    refine Classical.byContradiction fun hne => ?_
    exact hspoils ⟨f, hregistered, hnew, id, params, key, v, hkept, hne⟩
  cases op with
  | addFact f => exact ⟨rfl, hadd rfl⟩
  | addRuntimeFact id value =>
    refine ⟨rfl, ?_⟩
    cases hmake : Fact.constant id value with
    | ok f => exact hadd (f := f) (by rw [Operation.registered?, hmake]; rfl)
    | error e =>
      simp only [Operation.update, Operation.registered?, perform, addRuntimeFact, hmake]
      exact ha
  | removeFact id =>
    refine ⟨rfl, ?_⟩
    simp only [Operation.update, Operation.registered?, perform, removeFact, hfacts]
    by_cases hcontains : facts.contains id = true
    · simp only [if_pos hcontains]
      exact ⟨rfl, ha.options_eq, faithful_empty _ _ _⟩
    · simp only [if_neg hcontains]
      exact ha
  | clearCache => exact ⟨rfl, ha.facts_eq, ha.options_eq, faithful_empty _ _ _⟩
  | factValue id params path =>
    have h := hyields id params rfl path
    rw [← hdepth] at h
    exact steady_consult h ha
  | getValue v =>
    obtain ⟨r, hr⟩ : ∃ r, (Operation.getValue v).answer? facts options.allowUndefinedFacts =
        some r := by
      simp only [Operation.answer?]
      split
      · exact ⟨_, rfl⟩
      · exact ⟨_, rfl⟩
    have h := yields_value hr hyields
    rw [← hdepth] at h
    rw [hr]
    exact steady_consult h ha

/-- While nothing is spoiled, a run is answered by the facts that are registered at each time. -/
theorem steady_run {ops : List Operation} (ha : Steady K facts options { almanac := a })
    (hyields : ∀ pre op, pre ++ [op] <+: ops →
      ∀ id params, op.request? = some (id, params) → ∀ path,
        Yields (Steady K (factsAfter facts pre) options)
          (answer (factsAfter facts pre) options.allowUndefinedFacts id params path)
          (request ((factsAfter facts pre).size + 1) id params path))
    (hspoils : ∀ pre op, pre ++ [op] <+: ops → ¬ Spoils K (a.after pre) op) :
    a.answers ops = plainAnswers facts options.allowUndefinedFacts ops ∧
      Steady K (factsAfter facts ops) options { almanac := a.after ops } := by
  induction ops generalizing a facts with
  | nil => exact ⟨rfl, ha⟩
  | cons op rest ih =>
    have hhead : [] ++ [op] <+: op :: rest := ⟨rest, rfl⟩
    have htail {pre : List Operation} {op' : Operation} (h : pre ++ [op'] <+: rest) :
        op :: pre ++ [op'] <+: op :: rest := List.cons_prefix_cons.2 ⟨rfl, h⟩
    obtain ⟨h, hsteady⟩ := steady_perform ha (hyields [] op hhead) (hspoils [] op hhead)
    obtain ⟨hanswers, hsteady'⟩ := ih hsteady
      (fun pre op' h' => hyields (op :: pre) op' (htail h'))
      (fun pre op' h' => hspoils (op :: pre) op' (htail h'))
    exact ⟨by rw [answers, plainAnswers, h, hanswers], hsteady'⟩

theorem answers_append (a : Almanac) (ops ops' : List Operation) :
    a.answers (ops ++ ops') = a.answers ops ++ (a.after ops).answers ops' := by
  induction ops generalizing a with
  | nil => rfl
  | cons op rest ih => rw [List.cons_append, answers, answers, ih, List.append_assoc]; rfl

/-- Asking for a spoiled value tells the almanac with a cache from the one without. -/
theorem answers_ne_of_spoils {allow : Bool} {b : Almanac} {op : Operation}
    (ha : Steady K facts ⟨allow, true⟩ { almanac := a })
    (hb : Steady (fun _ _ => False) facts ⟨allow, false⟩ { almanac := b })
    (hregular : Regular (op.update facts)) (hspoils : Spoils K a op) :
    ∃ id params, K id params ∧
      (a.perform op).2.answers [.factValue id params none] ≠
        (b.perform op).2.answers [.factValue id params none] := by
  obtain ⟨f, hregistered, hnew, id, params, key, v, hkept, hne⟩ := hspoils
  have hfacts : a.facts = facts := ha.facts_eq
  have hoptions : a.options = ⟨allow, true⟩ := ha.options_eq
  subst hfacts
  rw [update_of_registered hregistered] at hregular
  rw [perform_of_registered hregistered, perform_of_registered hregistered]
  refine ⟨id, params, hkept.requested, ?_⟩
  have hcached : ((a.addFact f).perform (.factValue id params none)).1 = some (.ok v) := by
    have hadd : a.addFact f = { a with facts := a.facts.insert f.id f } := by
      have hcontains : a.facts.contains f.id = false := by simp [Table.contains, hnew]
      simp [addFact, hcontains]
    rw [hadd]
    obtain ⟨f', hget, hkey⟩ := (hkept.insert hnew).key_eq
    have hkey' : a.keyOf? f' params = some key := by
      rw [keyOf?, hoptions]
      exact hkey
    have hrun := (request_kept
      (c := { almanac := { a with facts := a.facts.insert f.id f } })
      hget hkey' hkept.get?_eq (a.facts.insert f.id f).size none).1
    exact congrArg (fun r => some r.1) hrun
  have huncached : ((b.addFact f).perform (.factValue id params none)).1 =
      some (answer (a.facts.insert f.id f) allow id params none) := by
    have hb' : Steady (fun _ _ => False) (a.facts.insert f.id f) ⟨allow, false⟩
        { almanac := b.addFact f } := steady_addFact hb fun _ _ _ _ _ h => h.requested.elim
    have hfacts : (b.addFact f).facts = a.facts.insert f.id f := hb'.facts_eq
    have h : Yields (Steady (fun _ _ => False) (a.facts.insert f.id f) ⟨allow, false⟩)
        (answer (a.facts.insert f.id f) allow id params none)
        ((provider (b.addFact f).depth).factValue id params none) := by
      rw [depth, hfacts]
      exact yields_request_uncached hregular rfl _ id params none
    exact (steady_consult h hb').1
  simp only [answers, hcached, huncached, Option.toList, List.append_nil]
  intro he
  rw [hoptions] at hne
  exact hne (List.cons.inj he).1.symm

end Almanac
end Verdict
