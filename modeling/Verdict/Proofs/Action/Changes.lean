import Verdict.Schedule

/-!
# Results changed afterwards

It makes no difference whether the results of actions side by side are changed one by one or in
the list of all: the actions take the same turns, and the same outcomes decide. So tasks by
priority may have their subjects changed before they run or after.
-/
namespace Verdict
open Verdict.Action

variable {σ τ α β : Type}

namespace Action

/-! Changing a result changes no step before it. -/

theorem map_done (f : α → β) (r : Except Fault α) :
    f <$> (done r : Action σ α) = done (r.map f) := by
  cases r <;> rfl

theorem run_map (f : α → β) (x : Action σ α) (s : σ) :
    (f <$> x).run s = ((x.run s).1.map f, (x.run s).2) := by
  change (x.andThen (onResult fun a => pure (f a))).run s = _
  rw [run_andThen]
  cases (x.run s).1 <;> rfl

theorem onPart_map (part : τ → σ) (replace : σ → τ → τ) (f : α → β) (x : Action σ α) :
    (f <$> x).onPart part replace = f <$> x.onPart part replace := by
  induction x with
  | done r => rw [map_done, onPart, onPart, map_done]
  | read next ih => exact congrArg Action.read (funext fun t => ih (part t))
  | write s next ih =>
    exact congrArg Action.read (funext fun t => congrArg (Action.write (replace s t)) ih)
  | wait ready next ih => exact congrArg (Action.wait _) ih

end Action

namespace Weave
variable {ν μ : Type}

/-- Changes what is noted. -/
def map (g : ν → μ) : Weave σ ν → Weave σ μ
  | ended => ended
  | note n next => note (g n) (map g next)
  | read next => read fun s => map g (next s)
  | write s next => write s (map g next)
  | wait ready next => wait ready (map g next)

variable (g : ν → μ)

theorem map_turn (ready : σ → Bool) (w : Weave σ ν) :
    map g (turn ready w) = turn ready (map g w) :=
  congrArg Weave.read (funext fun s => apply_ite (map g) (ready s = true) w (wait ready w))

theorem map_besides (ready : σ → Bool) (rest : Weave σ ν) {resume : Weave σ ν → Weave σ ν}
    {resume' : Weave σ μ → Weave σ μ} (hresume : ∀ v, map g (resume v) = resume' (map g v))
    (w : Weave σ ν) :
    map g (besides ready rest resume w) = besides ready (map g rest) resume' (map g w) := by
  induction w with
  | ended => rfl
  | note n next ih => exact congrArg (Weave.note _) ih
  | read next ih => exact congrArg Weave.read (funext ih)
  | write s next ih => exact congrArg (Weave.write s) ih
  | wait ready' next ih =>
    refine congrArg (Weave.wait _) (congrArg Weave.read (funext fun s => ?_))
    rw [apply_ite (map g), hresume, map_turn, ih]

theorem map_both (w w' : Weave σ ν) : map g (both w w') = both (map g w) (map g w') := by
  induction w generalizing w' with
  | ended => rfl
  | note n next ih => exact congrArg (Weave.note _) (ih w')
  | read next ih => exact congrArg Weave.read (funext fun s => ih s w')
  | write s next ih => exact congrArg (Weave.write s) (ih w')
  | wait ready next ih => exact map_besides g ready next ih w'

theorem ofAction_map {label : Except Fault β → μ} {label' : Except Fault α → ν} {f : α → β}
    (h : ∀ r, label (r.map f) = g (label' r)) (x : Action σ α) :
    ofAction label (f <$> x) = map g (ofAction label' x) := by
  induction x with
  | done r => rw [map_done, ofAction, ofAction, h, map, map]
  | read next ih => exact congrArg Weave.read (funext ih)
  | write s next ih => exact congrArg (Weave.write s) ih
  | wait ready next ih => exact congrArg (Weave.wait ready) ih

end Weave

namespace Action

namespace Outcomes

/-- Changes the result of each action as its number says. -/
def change (f : Nat → α → β) (l : Outcomes α) : Outcomes β :=
  l.mapIdx fun i => Option.map (Except.map (f i))

theorem change_cons (f : Nat → α → β) (r : Option (Except Fault α)) (l : Outcomes α) :
    change f (r :: l) = r.map (Except.map (f 0)) :: change (fun i => f (i + 1)) l :=
  List.mapIdx_cons

theorem findSome?_fault?_change (f : Nat → α → β) (l : Outcomes α) :
    (change f l).findSome? fault? = l.findSome? fault? := by
  induction l generalizing f with
  | nil => rfl
  | cons r l ih =>
    rw [change_cons]
    rcases r with - | e | a
    · exact ih _
    · rfl
    · exact ih _

theorem inOrder_change (f : Nat → α → β) (l : Outcomes α) :
    inOrder (change f l) = (inOrder l).map (Except.map (List.mapIdx f)) := by
  induction l generalizing f with
  | nil => rfl
  | cons r l ih =>
    rw [change_cons]
    rcases r with - | e | a
    · rfl
    · rfl
    · change (inOrder (change _ l)).map (Except.map (f 0 a :: ·)) = _
      rw [ih]
      rcases h : inOrder l with - | e | as
      · simp [inOrder, h]
      · simp [inOrder, h, Except.map]
      · simp [inOrder, h, Except.map, List.mapIdx_cons]

theorem decided_change (many : Bool) (f : Nat → α → β) (l : Outcomes α) :
    decided many (change f l) = (decided many l).map (Except.map (List.mapIdx f)) := by
  cases many with
  | true => exact inOrder_change f l
  | false =>
    simp only [decided, Bool.false_eq_true, if_false, findSome?_fault?_change]
    cases l.findSome? fault? with
    | none => exact inOrder_change f l
    | some e => rfl

end Outcomes

/-- The note on an action with its result changed as its number says. -/
def relabel (f : Nat → α → β) (n : Nat × Except Fault α) : Nat × Except Fault β :=
  (n.1, n.2.map (f n.1))

theorem settle_change (many : Bool) (f : Nat → α → β) (l : Outcomes α)
    (w : Weave σ (Nat × Except Fault α)) :
    settle many (Outcomes.change f l) (w.map (relabel f)) = List.mapIdx f <$> settle many l w := by
  induction w generalizing l with
  | ended =>
    rw [settle, map_done, Weave.map, settle, Outcomes.decided_change]
    cases Outcomes.decided many l <;> rfl
  | note n next ih =>
    have hset : (Outcomes.change f l).set (relabel f n).1 (some (relabel f n).2) =
        Outcomes.change f (l.set n.1 (some n.2)) := by
      rw [Outcomes.change, Outcomes.change, List.mapIdx_set]
      rfl
    rw [Weave.map, settle, settle, hset, Outcomes.decided_change]
    cases Outcomes.decided many (l.set n.1 (some n.2)) with
    | none => exact ih _
    | some r => exact (map_done _ r).symm
  | read next ih => exact congrArg Action.read (funext fun s => ih s l)
  | write s next ih => exact congrArg (Action.write s) (ih l)
  | wait ready next ih => exact congrArg (Action.wait ready) (ih l)

theorem weave_change (f : Nat → α → β) (actions : List (Action σ α)) :
    weave (actions.mapIdx fun i x => f i <$> x) = (weave actions).map (relabel f) := by
  have hnumbered : (actions.mapIdx fun i x => f i <$> x).zipIdx =
      actions.zipIdx.map fun x => (f x.2 <$> x.1, x.2) :=
    List.ext_getElem (by simp) fun i _ _ => by simp
  unfold weave
  rw [hnumbered, List.foldr_map]
  induction actions.zipIdx with
  | nil => rfl
  | cons x rest ih =>
    rw [List.foldr_cons, List.foldr_cons, ih, Weave.map_both]
    exact congrArg (Weave.both · _) (Weave.ofAction_map (relabel f) (fun _ => rfl) x.1)

theorem together_change (size : Nat) (f : Nat → α → β) (actions : List (Action σ α)) :
    together size (actions.mapIdx fun i x => f i <$> x) =
      List.mapIdx f <$> together size actions := by
  have hnone : ((actions.mapIdx fun i x => f i <$> x).map fun _ => none) =
      Outcomes.change f (actions.map fun _ => none) :=
    List.ext_getElem (by simp [Outcomes.change]) fun i _ _ => by simp [Outcomes.change]
  unfold together
  rw [hnone, weave_change, settle_change]

end Action

/-- A task whose subject is changed before and after. -/
def Task.change (f : α → β) (task : Task σ α) : Task σ β :=
  ⟨task.priority, f task.subject, Prod.map id f <$> task.run⟩

namespace Slot

def change (f : α → β) : Slot σ α → Slot σ β
  | waiting task => waiting (task.change f)
  | settled verdict a => settled verdict (f a)

variable (f : α → β) (slot : Slot σ α)

theorem subject_change : (slot.change f).subject = f slot.subject := by
  cases slot <;> rfl

theorem hasVerdict_change (b : Bool) : (slot.change f).hasVerdict b = slot.hasVerdict b := by
  cases slot <;> rfl

theorem isIn_change (priority : Int64) : (slot.change f).isIn priority = slot.isIn priority := by
  cases slot <;> rfl

theorem advance_change (priority : Int64) :
    (slot.change f).advance priority = Slot.change f <$> slot.advance priority := by
  cases slot with
  | settled verdict a => rfl
  | waiting task =>
    simp only [change, advance, Task.change]
    split
    · simp only [map_bind, bind_map_left]
      rfl
    · rfl

end Slot

namespace Schedule
variable (f : Nat → α → β)

/-- What a change of each subject leaves as it is can be read off the slots before. -/
theorem map_mapIdx_change {γ : Type} {q : Slot σ β → γ} {q' : Slot σ α → γ}
    (h : ∀ i slot, q (Slot.change (f i) slot) = q' slot) (slots : List (Slot σ α)) :
    (slots.mapIdx fun i => Slot.change (f i)).map q = slots.map q' :=
  List.ext_getElem (by simp) fun i _ _ => by simp [h]

theorem rounds_change (neutral : Bool) (ps : List Int64) (slots : List (Slot σ α)) :
    rounds neutral ps (slots.mapIdx fun i => Slot.change (f i)) =
      Prod.map id (List.mapIdx fun i => Slot.change (f i)) <$> rounds neutral ps slots := by
  induction ps generalizing slots with
  | nil => rfl
  | cons p ps ih =>
    have hcount : (slots.mapIdx fun i => Slot.change (f i)).countP (Slot.isIn p) =
        slots.countP (Slot.isIn p) := by
      have h := map_mapIdx_change f (fun i slot => slot.isIn_change (f i) p) slots
      have hboth := congrArg (List.countP id) h
      rwa [List.countP_map, List.countP_map] at hboth
    have hany (slots : List (Slot σ α)) :
        (slots.mapIdx fun i => Slot.change (f i)).any (Slot.hasVerdict !neutral) =
          slots.any (Slot.hasVerdict !neutral) := by
      have h := map_mapIdx_change f (fun i slot => slot.hasVerdict_change (f i) !neutral) slots
      have hboth := congrArg (List.any · id) h
      rwa [List.any_map, List.any_map] at hboth
    have hadvance : (slots.mapIdx fun i => Slot.change (f i)).map (Slot.advance p) =
        (slots.map (Slot.advance p)).mapIdx fun i x => Slot.change (f i) <$> x :=
      List.ext_getElem (by simp) fun i _ _ => by simp [Slot.advance_change]
    simp only [rounds, hcount, hadvance, together_change, bind_map_left, map_bind, hany]
    refine bind_congr fun slots' => ?_
    rw [apply_ite (Functor.map _), ih]
    rfl

/-- The subjects may be changed before or after. -/
theorem run_change (neutral : Bool) (tasks : List (Task σ α)) :
    run neutral (tasks.mapIdx fun i => Task.change (f i)) =
      Prod.map id (List.mapIdx f) <$> run neutral tasks := by
  have hpriorities : priorities (tasks.mapIdx fun i => Task.change (f i)) = priorities tasks := by
    unfold priorities
    rw [show (tasks.mapIdx fun i => Task.change (f i)).map (·.priority) = tasks.map (·.priority)
      from List.ext_getElem (by simp) fun i _ _ => by simp [Task.change]]
  have hwaiting : (tasks.mapIdx fun i => Task.change (f i)).map Slot.waiting =
      (tasks.map Slot.waiting).mapIdx fun i => Slot.change (f i) :=
    List.ext_getElem (by simp) fun i _ _ => by simp [Slot.change]
  have hsubjects (slots : List (Slot σ α)) :
      (slots.mapIdx fun i => Slot.change (f i)).map (·.subject) =
        (slots.map (·.subject)).mapIdx f :=
    List.ext_getElem (by simp) fun i _ _ => by simp [Slot.subject_change]
  simp only [run, hpriorities, hwaiting, rounds_change, bind_map_left, map_bind]
  refine bind_congr fun v => ?_
  exact congrArg (fun as => (pure (v.1, as) : Action σ (Bool × List β))) (hsubjects v.2)

end Schedule
end Verdict
