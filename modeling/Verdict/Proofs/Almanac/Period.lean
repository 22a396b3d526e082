import Verdict.Proofs.Almanac.Moves
import Verdict.Proofs.Almanac.Run

/-!
# Periods between clearings of the cache

As long as nothing clears the cache, a value that is kept stays as it is, and for each key at most
one computation succeeds. Computations may do what they like, and facts may have any keys, but no
computation asks for the key whose value it computes.
-/
namespace Verdict
open Verdict.Action Verdict.Consultation

namespace Operation

/-- Does the operation make an almanac with these facts forget all kept values? -/
def clears (facts : Table Fact) (op : Operation) : Bool :=
  match op.registered?, op with
  | some f, _ => facts.contains f.id
  | none, removeFact id => facts.contains id
  | none, clearCache => true
  | none, _ => false

/-- What the operation asks, of an almanac that computes so deep. -/
def question? (depth : Nat) : Operation → Option (Action Consultation Json)
  | factValue id params path => some ((Almanac.provider depth).factValue id params path)
  | getValue v => some ((Almanac.provider depth).value v)
  | _ => none

end Operation

namespace Almanac
variable {a : Almanac} {depth : Almanac → Nat}

/-- What `perform` does, if computations nest as deep as `depth` allows. -/
def performWithin (depth : Almanac → Nat) (a : Almanac) (op : Operation) :
    Option (Except Fault Json) × Almanac :=
  match op.question? (depth a) with
  | some action => a.consult action
  | none => a.perform op

theorem performWithin_depth (a : Almanac) (op : Operation) :
    a.performWithin Almanac.depth op = a.perform op := by
  cases op <;> rfl

/-- The moments of an operation. -/
def momentsOf (depth : Almanac → Nat) (a : Almanac) (op : Operation) : List Consultation :=
  match op.question? (depth a) with
  | some action => action.moments { almanac := a }
  | none => [{ almanac := (a.perform op).2 }]

/-- The moments of several operations. -/
def history (depth : Almanac → Nat) : Almanac → List Operation → List Consultation
  | _, [] => []
  | a, op :: rest => a.momentsOf depth op ++ history depth (a.performWithin depth op).2 rest

def afterWithin (depth : Almanac → Nat) (a : Almanac) (ops : List Operation) : Almanac :=
  ops.foldl (fun a op => (a.performWithin depth op).2) a

/-- None of the operations clears the cache, and no computation requests the key that it computes:
for that alone a request would have to wait. -/
def undisturbed (depth : Almanac → Nat) : Almanac → List Operation → Bool
  | _, [] => true
  | a, op :: rest =>
    !op.clears a.facts && (op.question? (depth a)).all (·.unblocked { almanac := a }) &&
      undisturbed depth (a.performWithin depth op).2 rest

theorem clears_of_registered {op : Operation} {f : Fact} (h : op.registered? = some f)
    (facts : Table Fact) : op.clears facts = facts.contains f.id := by
  simp only [Operation.clears, h]

theorem cache_perform_of_clears {op : Operation} (h : op.clears a.facts) :
    (a.perform op).2.cache = .empty := by
  cases hregistered : op.registered? with
  | some f =>
    rw [clears_of_registered hregistered] at h
    rw [perform_of_registered hregistered, addFact, if_pos h]
    rfl
  | none =>
    cases op with
    | clearCache => rfl
    | removeFact id =>
      simp only [Operation.clears, hregistered] at h
      simp only [perform, removeFact, if_pos h]
      rfl
    | addFact f => cases hregistered
    | _ => simp [Operation.clears, hregistered] at h

/-- An operation that asks nothing and does not clear the cache registers a fact under a new name,
or does nothing. -/
theorem perform_of_not_clears {op : Operation} {n : Nat} (hnone : op.question? n = none)
    (hclears : op.clears a.facts = false) :
    (∃ f, a.facts.get? f.id = none ∧ (a.perform op).2 = a.addFact f) ∨ (a.perform op).2 = a := by
  cases hregistered : op.registered? with
  | some f =>
    rw [clears_of_registered hregistered] at hclears
    exact .inl ⟨f, by simpa [Table.contains] using hclears,
      congrArg Prod.snd (perform_of_registered hregistered)⟩
  | none =>
    refine .inr ?_
    cases op with
    | addFact f => cases hregistered
    | addRuntimeFact id value =>
      cases hmake : Fact.constant id value with
      | ok f => simp [Operation.registered?, hmake, Except.toOption] at hregistered
      | error e =>
        simp only [perform, addRuntimeFact, hmake]
        rfl
    | removeFact id =>
      simp only [Operation.clears, hregistered] at hclears
      simp only [perform, removeFact, hclears]
      rfl
    | clearCache => simp [Operation.clears, hregistered] at hclears
    | factValue id params path => cases hnone
    | getValue v => cases hnone

/-- What an operation that asks nothing does is a move, unless it clears the cache. -/
theorem move_perform {op : Operation} {n : Nat} (hnone : op.question? n = none)
    (hclears : op.clears a.facts = false) :
    Move { almanac := a } { almanac := (a.perform op).2 } := by
  rcases perform_of_not_clears hnone hclears with ⟨f, hnew, hadded⟩ | hsame
  · exact hadded ▸ .register f hnew
  · exact hsame.symm ▸ .stay

theorem leads_question {op : Operation} {n : Nat} {x : Action Consultation Json}
    (hx : op.question? n = some x) (hfree : x.unblocked { almanac := a }) :
    Leads Move { almanac := a } (x.moments { almanac := a })
      { almanac := (a.consult x).2 } := by
  have htidy : Tidy { almanac := a } x := by
    cases op with
    | factValue id params path =>
      cases hx
      exact tidy_request n _ id params path
    | getValue v =>
      cases hx
      simp only [provider]
      split
      · exact tidy_request n _ _ _ _
      · exact tidy_done _ _
    | _ => cases hx
  obtain ⟨hleads, hunderway⟩ := htidy (sound_idle a) hfree
  have hidle : (x.run { almanac := a }).2 = { almanac := (a.consult x).2 } :=
    congrArg (Consultation.mk _) hunderway
  exact hidle ▸ hleads

theorem leads_history {ops : List Operation} (h : a.undisturbed depth ops) :
    Leads Move { almanac := a } (a.history depth ops) { almanac := a.afterWithin depth ops } := by
  induction ops generalizing a with
  | nil => exact .nil
  | cons op rest ih =>
    simp only [undisturbed, Bool.and_eq_true, Bool.not_eq_true'] at h
    obtain ⟨⟨hclears, hfree⟩, hrest⟩ := h
    refine Leads.append ?_ (ih hrest)
    cases hx : op.question? (depth a) with
    | some x =>
      rw [hx] at hfree
      simp only [momentsOf, performWithin, hx]
      exact leads_question hx hfree
    | none =>
      simp only [momentsOf, performWithin, hx]
      exact .cons (move_perform hx hclears) .nil

/-- What a way from one almanac to another shows of the cache. -/
structure Period (a : Almanac) (way : List Consultation) (b : Almanac) : Prop where
  leads : Leads Move { almanac := a } way { almanac := b }
  /-- No value that is kept is changed or deleted. -/
  lasting : ({ almanac := a } :: way).Pairwise fun c c' =>
    ∀ key v, c.kept? key = some v → c'.kept? key = some v
  /-- For each key at most one computation succeeds. -/
  once : ∀ key, (completions { almanac := a } way).countP (isSuccess key) ≤ 1
  /-- The values that come to be kept are those of the computations that succeed. -/
  new_iff : ∀ key v, (key, some v) ∈ completions { almanac := a } way ↔
    a.cache.get? key = none ∧ b.cache.get? key = some v
  served : ∀ c ∈ { almanac := a } :: way, ∀ id f, c.almanac.facts.get? id = some f →
    ∀ depth params path, Served c depth id f params path
  /-- Only with the next clearing the values are forgotten. -/
  forgotten : ∀ op, op.clears b.facts → (b.perform op).2.cache = .empty

theorem period_of_leads {way : List Consultation} {b : Almanac}
    (h : Leads Move { almanac := a } way { almanac := b }) : Period a way b := by
  have hcount (key : String) : (completions { almanac := a } way).countP (isSuccess key) +
      (a.cache.get? key).toList.length = (b.cache.get? key).toList.length :=
    countP_completions h (sound_idle a) key
  refine ⟨h, pairwise_kept h, fun key => ?_, fun key v => ⟨fun hmem => ?_, fun hkept => ?_⟩,
    fun c hc id f hget depth params path => ?_, fun op hop => cache_perform_of_clears hop⟩
  · have hlength : (b.cache.get? key).toList.length ≤ 1 := Option.length_toList_le
    have := hcount key
    omega
  · have hkept : b.cache.get? key = some v := kept?_of_mem_completions h hmem
    have hpos : 0 < (completions { almanac := a } way).countP (isSuccess key) :=
      List.countP_pos_iff.2 ⟨_, hmem, by simp [isSuccess]⟩
    have hone := hcount key
    rw [hkept, Option.toList_some, List.length_singleton] at hone
    refine ⟨?_, hkept⟩
    cases ha : a.cache.get? key with
    | none => rfl
    | some w =>
      rw [ha, Option.toList_some, List.length_singleton] at hone
      omega
  · have hone := hcount key
    rw [hkept.1, hkept.2] at hone
    have hpos : 0 < (completions { almanac := a } way).countP (isSuccess key) := by
      rw [show (completions { almanac := a } way).countP (isSuccess key) = 1 from hone]
      exact Nat.one_pos
    obtain ⟨⟨key', w⟩, hmem, hsuccess⟩ := List.countP_pos_iff.1 hpos
    obtain ⟨rfl, hw⟩ : key' = key ∧ w.isSome := by simpa [isSuccess] using hsuccess
    obtain ⟨w, rfl⟩ := Option.isSome_iff_exists.1 hw
    have hend : b.cache.get? key' = some w := kept?_of_mem_completions h hmem
    rwa [Option.some.inj (hkept.2.symm.trans hend)]
  · exact served (h.forall_mem (sound_idle a) (fun hc h => h.sound hc) c hc) hget depth params path

/-- Between two clearings, whatever the almanac is asked and whatever its facts compute, a key is
computed successfully at most once. Then its value is kept, and given to every later request without
a computation; until then every request computes it anew. -/
theorem period_of_undisturbed (depth : Almanac → Nat) {a : Almanac} {ops : List Operation}
    (h : a.undisturbed depth ops) :
    Period a (a.history depth ops) (a.afterWithin depth ops) :=
  period_of_leads (leads_history h)

/-- A fact that asks for `x` each time it is computed, and fails the first time. -/
def flaky : Fact :=
  ⟨"d", .dynamic fun n params => .ask "x" params none fun r =>
    .done (if n = 0 then .error .missingFactId else r), {}, Fact.defaultKey⟩

/-- The fact fails, is computed again, and is there when another fact has come in. -/
def flakyRun : List Operation :=
  [.factValue "d" .null none, .factValue "d" .null none, .addRuntimeFact "y" .null,
    .factValue "d" .null (some "$.rate")]

theorem period_flakyRun :
    let a := (empty {}).after [.addRuntimeFact "x" (.ofInt64 5), .addFact flaky]
    let way := a.history Almanac.depth flakyRun
    Period a way (a.afterWithin Almanac.depth flakyRun) ∧
      (completions { almanac := a } way).map (·.2.isSome) = [true, false, true] := by
  intro a way
  exact ⟨period_of_undisturbed Almanac.depth (by decide +kernel), by decide +kernel⟩

end Almanac
end Verdict
