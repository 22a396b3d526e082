import Verdict.Proofs.Almanac.Keys
import Verdict.Proofs.Condition.Metadata
import Verdict.Proofs.Json.Zeros

/-!
# Computations that requests share

A value that was computed for a request is kept, and answers the next request with the same
parameters. Parameters that are merely equal share it too, unless the signs of their zeros differ.
-/
namespace Verdict
open Verdict.Action

namespace Table
variable {α : Type}

/-- Entries under different keys make the same table in any order. -/
theorem ofList_perm {l l' : List (String × α)} (h : l.Perm l') (hkeys : (l.map Prod.fst).Nodup) :
    ofList l = ofList l' := by
  refine h.foldl_eq' (fun e he e' he' t => ?_) empty
  by_cases hne : e.1 = e'.1
  · rw [List.inj_on_of_nodup_map hkeys he he' hne]
  · exact congrArg Table.mk (place_comm (Ne.symm hne) _ _ _)

end Table

theorem Fact.cacheKey_eq {f : Fact} (hf : f.keyOf = defaultKey) (hcache : f.options.cache = true)
    (params : Json) : f.cacheKey params = some (defaultKey f.id params).digest := by
  rw [cacheKey, if_pos hcache, hf]

/-- The keys for equal parameters are the same just if the signs of their zeros are. -/
theorem Fact.cacheKey_eq_iff_of_beq {f : Fact} (hf : f.keyOf = defaultKey)
    (hcache : f.options.cache = true) {p q : Json} (heq : (p == q) = true)
    (hapart : Json.DigestedApart (defaultKey f.id p) (defaultKey f.id q)) :
    f.cacheKey p = f.cacheKey q ↔ Json.zeroSigns p = Json.zeroSigns q := by
  rw [cacheKey_eq hf hcache, cacheKey_eq hf hcache, Option.some_inj]
  refine ⟨fun hdigest => ?_, fun hsigns => ?_⟩
  · obtain ⟨-, rfl⟩ := defaultKey_inj.1 (Json.text_injective (hapart hdigest))
    rfl
  · rw [(Json.sameButZeros heq).2 hsigns]

namespace Almanac
variable {a a' : Almanac} {id key : String} {f : Fact} {params v : Json} {path : Option String}

theorem perform_kept (hget : a.facts.get? id = some f) (hkey : a.keyOf? f params = some key)
    {w : Json} (hw : a.cache.get? key = some w) (path : Option String) :
    a.perform (.factValue id params path) = (some (.ok (w.project path)), a) := by
  have hrun := (request_kept (c := { almanac := a }) hget hkey hw a.facts.size path).1
  change a.consult (request (a.facts.size + 1) id params path) = _
  rw [consult, hrun]

/-- A value that a request was answered is kept, and answers the next one without any change. -/
theorem shares_again (hget : a.facts.get? id = some f) (hkey : a.keyOf? f params = some key)
    (h : a.perform (.factValue id params path) = (some (.ok v), a')) :
    ∃ w : Json, v = w.project path ∧ ∀ path',
      a'.perform (.factValue id params path') = (some (.ok (w.project path')), a') := by
  have hx : (Operation.factValue id params path).question? a.depth = some _ := rfl
  have hsince := since_consult (a := a) hx
  rw [show a.consult _ = (some (.ok v), a') from h] at hsince
  have hget' : a'.facts.get? id = some f := hsince.1 ▸ hget
  have hkey' : a'.keyOf? f params = some key := by rwa [keyOf?, hsince.2]
  cases hkept : a.cache.get? key with
  | some w =>
    rw [perform_kept hget hkey hkept] at h
    cases h
    exact ⟨w, rfl, perform_kept hget hkey hkept⟩
  | none =>
    let c : Consultation := { almanac := a }
    have hagree := agree_request_project (c := c) hget
      (agree_compute_fresh (request a.facts.size) hkey hkept List.not_mem_nil) path
    change a.consult (request (a.facts.size + 1) id params path) = _ at h
    rw [consult, hagree.run_eq, run_project, run_keep] at h
    cases hresult : ((calculate (request a.facts.size) f params).run (c.start key)).1 with
    | error e =>
      rw [hresult] at h
      cases h
    | ok w =>
      rw [hresult] at h
      cases h
      exact ⟨w, rfl, perform_kept hget' hkey' (Table.get?_insert_self _ _ _)⟩

/-- Equal parameters are digested alike, have one key and share a computation just if the signs of
their zeros are the same. In which order the members of an object came in makes no difference. -/
theorem equal_params_share {p q : Json} (heq : (p == q) = true) :
    (∀ l l' : List (String × Json), l.Perm l' → (l.map Prod.fst).Nodup →
      (Json.object (.ofList l)).digest = (Json.object (.ofList l')).digest) ∧
    (Json.zeroSigns p = Json.zeroSigns q → p.digest = q.digest) ∧
    (Json.DigestedApart p q → p.digest = q.digest → Json.zeroSigns p = Json.zeroSigns q) ∧
    ∀ f : Fact, f.keyOf = Fact.defaultKey → f.options.cache = true →
      (Json.DigestedApart (Fact.defaultKey f.id p) (Fact.defaultKey f.id q) →
        (f.cacheKey p = f.cacheKey q ↔ Json.zeroSigns p = Json.zeroSigns q)) ∧
      ∀ (a : Almanac) id, a.facts.get? id = some f → a.options.factCache = true →
        Json.zeroSigns p = Json.zeroSigns q → ∀ path v a',
          a.perform (.factValue id p path) = (some (.ok v), a') →
            ∃ w : Json, v = w.project path ∧ ∀ path',
              a'.perform (.factValue id q path') = (some (.ok (w.project path')), a') := by
  have hsame := (Json.sameButZeros heq).2
  refine ⟨fun l l' h hkeys => by rw [Table.ofList_perm h hkeys],
    fun hsigns => congrArg Json.digest (hsame hsigns),
    fun hapart => (Json.digest_eq_iff_of_beq heq hapart).1, fun f hf hcache => ?_⟩
  refine ⟨Fact.cacheKey_eq_iff_of_beq hf hcache heq,
    fun a id hget hfactCache hsigns path v a' h => ?_⟩
  obtain rfl := hsame hsigns
  have hkey : a.keyOf? f p = some (Fact.defaultKey f.id p).digest := by
    rw [keyOf?, if_pos hfactCache, Fact.cacheKey_eq hf hcache]
  exact shares_again hget hkey h

/-- A fact that gives how often it was computed before. -/
def counter : Fact := ⟨"d", .dynamic fun n _ => .done (.ok (.ofNat n)), {}, Fact.defaultKey⟩

def zero (negative : Bool) : Json := .number (.double (.zero negative))

/-- Parameters whose members came in another order share the computation. -/
theorem equal_params_share_reordered :
    let p : Json := .object (.ofList [("n", .ofInt64 1), ("rate", zero true)])
    let q : Json := .object (.ofList [("rate", zero true), ("n", .ofInt64 1)])
    let a := (empty ⟨false, true⟩).after [.addFact counter]
    (p == q) = true ∧ counter.cacheKey p = counter.cacheKey q ∧
      ∃ a', a.perform (.factValue "d" p none) = (some (.ok (.ofNat 0)), a') ∧
        a'.perform (.factValue "d" q none) = (some (.ok (.ofNat 0)), a') := by
  intro p q a
  have heq : (p == q) = true := Json.equal_refl p
  obtain ⟨hkeys, hshares⟩ := (equal_params_share heq).2.2.2 counter rfl rfl
  have hfirst : (a.perform (.factValue "d" p none)).1 = some (.ok (.ofNat 0)) := rfl
  obtain ⟨w, hw, hagain⟩ := hshares a "d" rfl rfl rfl none _ _ (Prod.ext hfirst rfl)
  exact ⟨heq, (hkeys fun _ => rfl).2 rfl, _, Prod.ext hfirst rfl, hw ▸ hagain none⟩

/-- The two zeros are equal, but are digested differently: the fact is computed for each. -/
theorem equal_zeros_unshared :
    (zero false == zero true) = true ∧ (zero false).digest ≠ (zero true).digest ∧
      ((empty ⟨false, true⟩).answers
        [.addFact counter, .factValue "d" (zero false) none, .factValue "d" (zero true) none]).map
          (·.toOption.map Json.text) = [some "0", some "1"] :=
  ⟨rfl, by decide +kernel, by decide +kernel⟩

end Almanac
end Verdict
