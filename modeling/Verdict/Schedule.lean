import Verdict.Action.Together

/-!
# Tasks by priority

Tasks run in rounds, one for each priority, the highest first. A round runs its tasks side by
side, in the order of the list; after a round in which some verdict is decisive no other round
runs.
-/
namespace Verdict

/-- A task on a subject: it gives a verdict and the subject as it is afterwards. -/
structure Task (σ α : Type) where
  priority : Int64
  subject : α
  run : Action σ (Bool × α)

/-- A task that waits, or what came of it. -/
inductive Slot (σ α : Type) where
  | waiting (task : Task σ α)
  | settled (verdict : Bool) (subject : α)

namespace Slot
variable {σ α : Type}

def subject : Slot σ α → α
  | waiting t => t.subject
  | settled _ a => a

def hasVerdict (b : Bool) : Slot σ α → Bool
  | waiting _ => false
  | settled verdict _ => verdict == b

/-- Does the task wait for the round of that priority? -/
def isIn (priority : Int64) : Slot σ α → Bool
  | waiting t => t.priority == priority
  | settled _ _ => false

/-- Runs a waiting task of that priority. -/
def advance (priority : Int64) : Slot σ α → Action σ (Slot σ α)
  | waiting t =>
    if t.priority = priority then do
      let (verdict, a) ← t.run
      return settled verdict a
    else return waiting t
  | settled verdict a => return settled verdict a

end Slot

namespace Schedule
variable {σ α : Type}

/-- The priorities that occur, the highest first. -/
def priorities (tasks : List (Task σ α)) : List Int64 :=
  ((tasks.map (·.priority)).mergeSort fun p q => decide (q ≤ p)).eraseDups

def rounds (neutral : Bool) : List Int64 → List (Slot σ α) → Action σ (Bool × List (Slot σ α))
  | [], slots => return (neutral, slots)
  | p :: rest, slots => do
    let slots ← Action.together (slots.countP (Slot.isIn p)) (slots.map (Slot.advance p))
    if slots.any (Slot.hasVerdict !neutral) then return (!neutral, slots)
    else rounds neutral rest slots

/-- The verdict on all tasks, and their subjects. Without a decisive verdict it is `neutral`. -/
def run (neutral : Bool) (tasks : List (Task σ α)) : Action σ (Bool × List α) := do
  let (verdict, slots) ← rounds neutral (priorities tasks) (tasks.map .waiting)
  return (verdict, slots.map (·.subject))

end Schedule
end Verdict
