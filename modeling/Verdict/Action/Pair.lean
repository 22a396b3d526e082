import Verdict.Action.Basic

/-!
# Two actions side by side

The two take turns until both have a result or one meets a fault, which gives up both. A turn
lasts until the action waits or ends. Which of them has its turn first changes from round to
round.
-/
namespace Verdict

/-- Where the second of two actions stands while the first has its turn. -/
inductive Partner (σ β : Type) where
  /-- Its turn in this round is still to come. -/
  | due (action : Action σ β)
  /-- It had its turn in this round and waits. -/
  | resting (ready : σ → Bool) (next : Action σ β)

namespace Action
variable {σ α β γ : Type}

/-- The turn of an action that waits: it goes on if the state is ready. -/
def turn (ready : σ → Bool) (next : Action σ α) : Action σ α :=
  read fun s => if ready s then next else wait ready next

/-- The turn of the second of two, while the first waits. When the second has ended, the first
goes on with `alone`; before that `resume` gives the first its turn. The turn of the first is
still to come in this round if `isDue`. -/
def meanwhile (ready : σ → Bool) (alone : β → Action σ γ) (resume : Partner σ β → Action σ γ) :
    Bool → Action σ β → Action σ γ
  | _, done (.error e) => done (.error e)
  | true, done (.ok b) => turn ready (alone b)
  | false, done (.ok b) => wait ready (alone b)
  | isDue, read next => read fun s => meanwhile ready alone resume isDue (next s)
  | isDue, write s next => write s (meanwhile ready alone resume isDue next)
  | true, wait ready' next => read fun s =>
    if ready s then resume (.resting ready' next)
    else wait (fun s => ready s || ready' s) (read fun s =>
      if ready s then resume (.due (turn ready' next))
      else meanwhile ready alone resume false next)
  | false, wait ready' next => wait (fun s => ready s || ready' s) (read fun s =>
      if ready' s then meanwhile ready alone resume true next
      else resume (.resting ready' next))

/-- The turn of the first of two. -/
def pairWith : Action σ α → Partner σ β → Action σ (α × β)
  | done (.error e), _ => done (.error e)
  | done (.ok a), .due b => b.andThen (onResult fun b => done (.ok (a, b)))
  | done (.ok a), .resting ready next =>
    wait ready (next.andThen (onResult fun b => done (.ok (a, b))))
  | read next, partner => read fun s => pairWith (next s) partner
  | write s next, partner => write s (pairWith next partner)
  | wait ready next, .due b =>
    meanwhile ready (fun b => next.andThen (onResult fun a => done (.ok (a, b))))
      (pairWith next) false b
  | wait ready next, .resting ready' next' =>
    wait (fun s => ready s || ready' s) (read fun s =>
      if ready s then pairWith next (.due (turn ready' next'))
      else meanwhile ready (fun b => next.andThen (onResult fun a => done (.ok (a, b))))
        (pairWith next) false next')

/-- The results of two actions side by side. -/
def pair (a : Action σ α) (b : Action σ β) : Action σ (α × β) := pairWith a (.due b)

end Action
end Verdict
