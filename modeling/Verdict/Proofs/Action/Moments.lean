import Verdict.Action.Basic

/-!
# The moments of an action

An action that has the state to itself leads from moment to moment, one for each time that it
writes. It is blocked if it waits for what only others could bring about.
-/
namespace Verdict.Action
variable {σ α β : Type}

/-- The states that the action writes, in their order. -/
def moments : Action σ α → σ → List σ
  | done _, _ => []
  | read next, s => moments (next s) s
  | write s next, _ => s :: moments next s
  | wait _ next, s => moments next s

/-- Whatever the action waits for is there when it does. -/
def unblocked : Action σ α → σ → Bool
  | done _, _ => true
  | read next, s => unblocked (next s) s
  | write s next, _ => unblocked next s
  | wait ready next, s => ready s && unblocked next s

theorem moments_andThen (k : Except Fault α → Action σ β) (x : Action σ α) (s : σ) :
    (x.andThen k).moments s = x.moments s ++ (k (x.run s).1).moments (x.run s).2 := by
  induction x generalizing s with
  | done r => rfl
  | read next ih => exact ih s s
  | write s' next ih => exact congrArg (s' :: ·) (ih s')
  | wait ready next ih => exact ih s

theorem unblocked_andThen (k : Except Fault α → Action σ β) (x : Action σ α) (s : σ) :
    (x.andThen k).unblocked s =
      (x.unblocked s && (k (x.run s).1).unblocked (x.run s).2) := by
  induction x generalizing s with
  | done r => rfl
  | read next ih => exact ih s s
  | write s' next ih => exact ih s'
  | wait ready next ih =>
    change (ready s && (next.andThen k).unblocked s) = _
    rw [ih s, ← Bool.and_assoc]
    rfl

variable {x y z : Action σ α} {s s' s'' : σ}

/-- From the state both actions do the same. -/
structure AgreeFrom (s : σ) (x y : Action σ α) : Prop where
  run_eq : x.run s = y.run s
  moments_eq : x.moments s = y.moments s
  unblocked_eq : x.unblocked s = y.unblocked s

theorem agreeFrom_state (s : σ) (next : σ → Action σ α) :
    AgreeFrom s (Action.state >>= next) (next s) :=
  ⟨rfl, rfl, rfl⟩

theorem AgreeFrom.trans (h : AgreeFrom s x y)
    (h' : AgreeFrom s y z) : AgreeFrom s x z :=
  ⟨h.run_eq.trans h'.run_eq, h.moments_eq.trans h'.moments_eq,
    h.unblocked_eq.trans h'.unblocked_eq⟩

theorem AgreeFrom.andThen (h : AgreeFrom s x y)
    (k : Except Fault α → Action σ β) : AgreeFrom s (x.andThen k) (y.andThen k) := by
  refine ⟨?_, ?_, ?_⟩
  · rw [run_andThen, run_andThen, h.run_eq]
  · rw [moments_andThen, moments_andThen, h.run_eq, h.moments_eq]
  · rw [unblocked_andThen, unblocked_andThen, h.run_eq, h.unblocked_eq]

/-- A way from one state to another, through these states and in steps of `R`. -/
inductive Leads (R : σ → σ → Prop) : σ → List σ → σ → Prop
  | nil {s : σ} : Leads R s [] s
  | cons {s s' s'' : σ} {way : List σ} (hstep : R s s') (hrest : Leads R s' way s'') :
      Leads R s (s' :: way) s''

variable {R : σ → σ → Prop} {way way' : List σ}

theorem Leads.append (h : Leads R s way s') (h' : Leads R s' way' s'') :
    Leads R s (way ++ way') s'' := by
  induction h with
  | nil => exact h'
  | cons hstep _ ih => exact .cons hstep (ih h')

/-- What every step keeps holds all the way. -/
theorem Leads.forall_mem {J : σ → Prop} (h : Leads R s way s') (hs : J s)
    (hstep : ∀ {t t'}, J t → R t t' → J t') : ∀ t ∈ s :: way, J t := by
  induction h with
  | nil => exact List.forall_mem_singleton.2 hs
  | cons hfirst _ ih => exact List.forall_mem_cons.2 ⟨hs, ih (hstep hs hfirst)⟩

theorem Leads.end_mem (h : Leads R s way s') : s' ∈ s :: way := by
  induction h with
  | nil => exact List.mem_singleton_self _
  | cons _ _ ih => exact List.mem_cons_of_mem _ ih

theorem Leads.holds {J : σ → Prop} (h : Leads R s way s') (hs : J s)
    (hstep : ∀ {t t'}, J t → R t t' → J t') : J s' :=
  h.forall_mem hs hstep s' h.end_mem

end Verdict.Action
