import Verdict.Almanac
import Verdict.Proofs.Action.Ensures

/-!
# What computing a fact ensures

An invariant of an almanac in use that holds of every value that is kept for a request, holds of
what the request is answered: the value is kept already, or is computed and kept then.
-/
namespace Verdict

theorem Almanac.cacheKey_of_keyOf? {a : Almanac} {f : Fact} {params : Json} {key : String}
    (h : a.keyOf? f params = some key) : f.cacheKey params = some key := by
  rw [keyOf?] at h
  split at h
  · exact h
  · cases h

namespace Action
open Verdict.Almanac

variable {I : Consultation → Prop} {P : Json → Prop} {E : Fault → Prop} {key : String}
variable {x : Action Consultation Json}

theorem Ensures.keptOr (hkept : ∀ c, I c → ∀ v, c.almanac.cache.get? key = some v → P v)
    (h : Ensures I P E x) : Ensures I P E (keptOr key x) := by
  refine Ensures.state.bind fun c hc => ?_
  cases hv : c.almanac.cache.get? key with
  | some v => exact Ensures.pure (hkept c hc v hv)
  | none => exact h

theorem Ensures.keep (hstart : ∀ c, I c → I (c.start key))
    (hfinish : ∀ c r, I c → Meets P E r → I (c.finish key r)) (h : Ensures I P E x) :
    Ensures I P E (keep key x) := by
  refine (Ensures.modify hstart).bind fun _ _ => h.andThen fun r hr => ?_
  exact (Ensures.modify fun c hc => hfinish c r hc hr).bind fun _ _ => hr

theorem Ensures.compute {f : Fact} {params : Json}
    {answer : String → Json → Option String → Action Consultation Json}
    (hkept : ∀ key, f.cacheKey params = some key →
      ∀ c, I c → ∀ v, c.almanac.cache.get? key = some v → P v)
    (hstart : ∀ key c, I c → I (c.start key))
    (hfinish : ∀ key, f.cacheKey params = some key →
      ∀ c r, I c → Meets P E r → I (c.finish key r))
    (h : Ensures I P E (calculate answer f params)) :
    Ensures I P E (compute answer f params) := by
  refine Ensures.state.bind fun c _ => ?_
  cases hkey : c.almanac.keyOf? f params with
  | none => exact h
  | some key =>
    have hcacheKey := cacheKey_of_keyOf? hkey
    have hfresh := Ensures.keep (hstart key) (hfinish key hcacheKey) h
    have hwait := Ensures.keptOr (hkept key hcacheKey) hfresh
    exact Ensures.keptOr (hkept key hcacheKey) (Ensures.ite hwait hfresh)

end Action
end Verdict
