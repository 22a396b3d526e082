import Verdict.Action.Basic

/-!
# Actions side by side

Actions that are carried out together take turns in their order. A turn lasts until the action
waits or ends; when all have had their turn, it is the first one's again. All are given up as
soon as it is decided that they fail: of a few actions with the first fault that occurs, of
many once all those before the faulty one have ended.
-/
namespace Verdict

/-- What several actions do in turns. Each outcome is noted when it occurs. -/
inductive Weave (σ ν : Type) where
  | ended
  | note (n : ν) (next : Weave σ ν)
  | read (next : σ → Weave σ ν)
  | write (s : σ) (next : Weave σ ν)
  | wait (ready : σ → Bool) (next : Weave σ ν)

namespace Weave
variable {σ ν α : Type}

/-- One action, whose outcome is noted. -/
def ofAction (label : Except Fault α → ν) : Action σ α → Weave σ ν
  | .done r => note (label r) ended
  | .read next => read fun s => ofAction label (next s)
  | .write s next => write s (ofAction label next)
  | .wait ready next => wait ready (ofAction label next)

/-- The turn of one that waits: it goes on if the state is ready. -/
def turn (ready : σ → Bool) (next : Weave σ ν) : Weave σ ν :=
  read fun s => if ready s then next else wait ready next

/-- The turn of the second of two, while the first waits to go on with `rest`. When both wait,
the next turn is the first one's, which `resume` gives when it has come. -/
def besides (ready : σ → Bool) (rest : Weave σ ν) (resume : Weave σ ν → Weave σ ν) :
    Weave σ ν → Weave σ ν
  | ended => wait ready rest
  | note n next => note n (besides ready rest resume next)
  | read next => read fun s => besides ready rest resume (next s)
  | write s next => write s (besides ready rest resume next)
  | wait ready' next => wait (fun s => ready s || ready' s) (read fun s =>
      if ready s then resume (turn ready' next) else besides ready rest resume next)

/-- The turns of two, the first one's to begin with. -/
def both : Weave σ ν → Weave σ ν → Weave σ ν
  | ended, w => w
  | note n next, w => note n (both next w)
  | read next, w => read fun s => both (next s) w
  | write s next, w => write s (both next w)
  | wait ready next, w => besides ready next (fun w' => both next w') w

end Weave

namespace Action
variable {σ α : Type}

/-- The outcomes of actions so far, in the order of the actions. -/
abbrev Outcomes (α : Type) := List (Option (Except Fault α))

namespace Outcomes

def fault? : Option (Except Fault α) → Option Fault
  | some (.error e) => some e
  | _ => none

/-- All results, or a fault with only results before it. -/
def inOrder : Outcomes α → Option (Except Fault (List α))
  | [] => some (.ok [])
  | none :: _ => none
  | some (.error e) :: _ => some (.error e)
  | some (.ok a) :: rest => (inOrder rest).map fun r => r.map (a :: ·)

/-- What the outcomes decide; among many a fault has to wait for those before it. -/
def decided (many : Bool) (l : Outcomes α) : Option (Except Fault (List α)) :=
  match if many then none else l.findSome? fault? with
  | some e => some (.error e)
  | none => inOrder l

end Outcomes

/-- Follows the turns until the outcomes noted so far decide. -/
def settle (many : Bool) : Outcomes α → Weave σ (Nat × Except Fault α) → Action σ (List α)
  | l, .ended => done ((Outcomes.decided many l).getD (.ok []))
  | l, .note n next =>
    match Outcomes.decided many (l.set n.1 (some n.2)) with
    | some r => done r
    | none => settle many (l.set n.1 (some n.2)) next
  | l, .read next => read fun s => settle many l (next s)
  | l, .write s next => write s (settle many l next)
  | l, .wait ready next => wait ready (settle many l next)

/-- The actions side by side, each with its number. -/
def weave (actions : List (Action σ α)) : Weave σ (Nat × Except Fault α) :=
  actions.zipIdx.foldr (fun (a, i) w => (Weave.ofAction (i, ·) a).both w) .ended

/-- More actions than this are many. -/
def few : Nat := 30

/-- Does the actions side by side; `size` is how many of them count. -/
def together (size : Nat) (actions : List (Action σ α)) : Action σ (List α) :=
  settle (few < size) (actions.map fun _ => none) (weave actions)

end Action
end Verdict
