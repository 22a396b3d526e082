import Verdict.Proofs.Action.Ensures
import Verdict.Provider

/-!
# Providers with fixed answers

An action yields an outcome if it ends with it whatever others do to the state. A provider gives
answers if each of its requests yields one, so that they depend on the request alone.
-/
namespace Verdict

namespace Action
variable {σ α β : Type} {I : σ → Prop} {r : Except Fault α} {x : Action σ α}
variable {P : β → Prop} {E : Fault → Prop}

/-- The action ends with `r`, though others change the state within `I`. -/
def Yields (I : σ → Prop) (r : Except Fault α) (x : Action σ α) : Prop :=
  Ensures I (fun a => r = .ok a) (fun e => r = .error e) x

theorem eq_of_meets {r' : Except Fault α}
    (h : Meets (fun a => r = .ok a) (fun e => r = .error e) r') : r = r' := by
  cases r' with
  | ok a => exact h
  | error e => exact h

theorem yields_done (I : σ → Prop) (r : Except Fault α) : Yields I r (done r) := by
  cases r <;> rfl

theorem Yields.andThen {k : Except Fault α → Action σ β} (h : Yields I r x)
    (hk : Ensures I P E (k r)) : Ensures I P E (x.andThen k) :=
  Ensures.andThen h fun _ hr => eq_of_meets hr ▸ hk

theorem Yields.run {s : σ} (h : Yields I r x) (hs : I s) : (x.run s).1 = r ∧ I (x.run s).2 := by
  obtain ⟨hr, hs'⟩ := Ensures.run h hs
  exact ⟨(eq_of_meets hr).symm, hs'⟩

end Action

open Verdict.Action

/-- What a provider answers to each request. -/
structure Answers where
  factValue : String → Json → Option String → Except Fault Json
  value : Json → Except Fault Json := fun v =>
    match FactReference.ofJson? v with
    | some r => factValue r.id r.params r.path
    | none => .ok v

/-- The answers of facts with fixed values. -/
def Answers.ofTable (facts : Table Json) : Answers where
  factValue id _ path :=
    match facts.get? id with
    | some v => .ok (v.project path)
    | none => .error (.undefinedFact id)

namespace Provider
variable {σ : Type} {I : σ → Prop}

/-- Every request yields its answer; the priorities of facts are left open. -/
structure Gives (p : Provider σ) (I : σ → Prop) (answers : Answers) : Prop where
  factValue : ∀ id params path,
    Yields I (answers.factValue id params path) (p.factValue id params path)
  value : ∀ v, Yields I (answers.value v) (p.value v)

theorem gives_ofTable (facts : Table Json) : (ofTable facts).Gives I (.ofTable facts) := by
  have hfact (id : String) (params : Json) (path : Option String) :
      Yields I ((Answers.ofTable facts).factValue id params path)
        ((ofTable facts).factValue id params path) := by
    simp only [ofTable, Answers.ofTable]
    cases facts.get? id with
    | some v => exact yields_done I (.ok (v.project path))
    | none => exact yields_done I (.error (.undefinedFact id))
  refine ⟨hfact, fun v => ?_⟩
  cases h : FactReference.ofJson? v with
  | some r =>
    have hr := hfact r.id r.params r.path
    simpa only [ofTable, Answers.ofTable, h] using hr
  | none =>
    simp only [ofTable, Answers.ofTable, h]
    exact yields_done I (.ok v)

end Provider
end Verdict
