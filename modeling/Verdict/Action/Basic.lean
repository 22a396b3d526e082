import Verdict.Fault

/-!
# Actions on a state

An action reads and writes a state, may wait while others work on it, and ends with a result
or a fault. A fault ends the actions that come after it, but what was done to the state before
it stays done.
-/
namespace Verdict

inductive Action (σ α : Type) where
  | done (outcome : Except Fault α)
  | read (next : σ → Action σ α)
  | write (s : σ) (next : Action σ α)
  /-- Lets others go on, and goes on itself in a state that is ready. -/
  | wait (ready : σ → Bool) (next : Action σ α)

namespace Action
variable {σ τ α β : Type}

/-- Goes on from the outcome of an action, be it a fault. -/
def andThen (k : Except Fault α → Action σ β) : Action σ α → Action σ β
  | done r => k r
  | read next => read fun s => andThen k (next s)
  | write s next => write s (andThen k next)
  | wait ready next => wait ready (andThen k next)

/-- Goes on from a result; after a fault nothing goes on. -/
def onResult (f : α → Action σ β) : Except Fault α → Action σ β
  | .ok a => f a
  | .error e => done (.error e)

instance : Monad (Action σ) where
  pure a := done (.ok a)
  bind x f := x.andThen (onResult f)

/-- Carries out an action that has the state to itself. It does not wait: nobody else could
bring about what it waits for. -/
def run : Action σ α → σ → Except Fault α × σ
  | done r, s => (r, s)
  | read next, s => run (next s) s
  | write s next, _ => run next s
  | wait _ next, s => run next s

theorem andThen_andThen (k : Except Fault α → Action σ β) {γ : Type}
    (l : Except Fault β → Action σ γ) (x : Action σ α) :
    (x.andThen k).andThen l = x.andThen fun r => (k r).andThen l := by
  induction x with
  | done r => rfl
  | read next ih => simp only [andThen, ih]
  | write s next ih => simp only [andThen, ih]
  | wait ready next ih => simp only [andThen, ih]

theorem andThen_done (x : Action σ α) : x.andThen done = x := by
  induction x with
  | done r => rfl
  | read next ih => simp only [andThen, ih]
  | write s next ih => simp only [andThen, ih]
  | wait ready next ih => simp only [andThen, ih]

theorem run_andThen (k : Except Fault α → Action σ β) (x : Action σ α) (s : σ) :
    (x.andThen k).run s = (k (x.run s).1).run (x.run s).2 := by
  induction x generalizing s with
  | done r => rfl
  | read next ih => exact ih s s
  | write s' next ih => exact ih s'
  | wait ready next ih => exact ih s

theorem run_bind_of_ok {x : Action σ α} {s s' : σ} {a : α} (h : x.run s = (.ok a, s'))
    (f : α → Action σ β) : (x >>= f).run s = (f a).run s' := by
  change (x.andThen (onResult f)).run s = _
  rw [run_andThen, h]
  rfl

theorem run_bind_of_error {x : Action σ α} {s s' : σ} {e : Fault} (h : x.run s = (.error e, s'))
    (f : α → Action σ β) : (x >>= f).run s = (.error e, s') := by
  change (x.andThen (onResult f)).run s = _
  rw [run_andThen, h]
  rfl

theorem onResult_pure : onResult (pure : α → Action σ α) = done := by
  funext r
  cases r <;> rfl

instance : LawfulMonad (Action σ) := by
  apply LawfulMonad.mk' (Action σ)
  · intro α x
    change x.andThen (onResult pure) = x
    rw [onResult_pure, andThen_done]
  · intro α β a f
    rfl
  · intro α β γ x f g
    change (x.andThen (onResult f)).andThen (onResult g) = _
    rw [andThen_andThen]
    congr 1
    funext r
    cases r <;> rfl

def fail (e : Fault) : Action σ α := done (.error e)

def ofExcept (r : Except Fault α) : Action σ α := done r

def state : Action σ σ := read fun s => done (.ok s)

def modify (f : σ → σ) : Action σ Unit := read fun s => write (f s) (done (.ok ()))

/-- Lets others go on once. -/
def pause : Action σ Unit := wait (fun _ => true) (done (.ok ()))

/-- Does the actions for the elements of a list in order. -/
def forEach (f : α → Action σ β) : List α → Action σ (List β)
  | [] => pure []
  | a :: rest => do
    let b ← f a
    let bs ← forEach f rest
    return b :: bs

/-- An action on a part of the state. -/
def onPart (part : τ → σ) (replace : σ → τ → τ) : Action σ α → Action τ α
  | done r => done r
  | read next => read fun t => onPart part replace (next (part t))
  | write s next => read fun t => write (replace s t) (onPart part replace next)
  | wait ready next => wait (fun t => ready (part t)) (onPart part replace next)

end Action
end Verdict
