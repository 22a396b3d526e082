import Verdict.Proofs.Action.Follows
import Verdict.Schedule

/-!
# Actions side by side that follow others

Several actions side by side follow as many others, if each follows one. When one of the others is
lost, they are lost together: its result is owed and never noted. So a schedule of tasks follows
one whose tasks have the same priorities.
-/
namespace Verdict
open Verdict.Action

variable {σ τ α β : Type} {L : Likeness σ τ} {R : α → β → Prop}

namespace Weave
variable {w v : Weave σ (Nat × Except Fault α)} {w' v' : Weave τ (Nat × Except Fault β)}
variable {todo todo' : Nat → Prop}

/-- Less may be asked of the results. -/
theorem Owes.imp {I : σ → Prop} {P P' : Nat → α → Prop} {E : Fault → Prop}
    (h : Owes I P E w todo) (hP : ∀ i a, P i a → P' i a) : Owes I P' E w todo := by
  induction w generalizing todo with
  | ended => exact h
  | note n next ih => exact ⟨h.1.mono (hP n.1) fun _ he => he, ih h.2⟩
  | read next ih => exact fun s hs => ih s (h s hs)
  | write s next ih => exact ⟨h.1, ih h.2⟩
  | wait ready next ih => exact ih h

/-- The second weave follows the first, and both note one outcome for each number in `todo`. -/
inductive Follows (L : Likeness σ τ) (R : α → β → Prop) :
    (Nat → Prop) → Weave σ (Nat × Except Fault α) → Weave τ (Nat × Except Fault β) → Prop
  | ended {todo : Nat → Prop} (htodo : ∀ i, ¬ todo i) : Follows L R todo .ended .ended
  | note {todo : Nat → Prop} {i : Nat} {r : Except Fault α} {r' : Except Fault β}
      {next : Weave σ (Nat × Except Fault α)} {next' : Weave τ (Nat × Except Fault β)}
      (hi : todo i) (hr : Alike R r r') (h : Follows L R (fun j => todo j ∧ j ≠ i) next next') :
      Follows L R todo (.note (i, r) next) (.note (i, r') next')
  | read {todo : Nat → Prop} {next : σ → Weave σ (Nat × Except Fault α)}
      {next' : τ → Weave τ (Nat × Except Fault β)}
      (h : ∀ s, L.within s → Follows L R todo (next s) (next' (L.image s))) :
      Follows L R todo (.read next) (.read next')
  | write {todo : Nat → Prop} {s : σ} {t : τ} {next : Weave σ (Nat × Except Fault α)}
      {next' : Weave τ (Nat × Except Fault β)} (hs : L.within s) (ht : L.image s = t)
      (h : Follows L R todo next next') : Follows L R todo (.write s next) (.write t next')
  | wait {todo : Nat → Prop} {ready : σ → Bool} {ready' : τ → Bool}
      {next : Weave σ (Nat × Except Fault α)} {next' : Weave τ (Nat × Except Fault β)}
      (hready : ∀ s, L.within s → ready s = ready' (L.image s)) (h : Follows L R todo next next') :
      Follows L R todo (.wait ready next) (.wait ready' next')
  | look {todo : Nat → Prop} {next : σ → Weave σ (Nat × Except Fault α)}
      {w' : Weave τ (Nat × Except Fault β)}
      (h : ∀ s, L.within s → Follows L R todo (next s) w') : Follows L R todo (.read next) w'
  | idle {todo : Nat → Prop} {g : σ → σ} {next : Weave σ (Nat × Except Fault α)}
      {w' : Weave τ (Nat × Except Fault β)} (hg : L.idle g) (h : Follows L R todo next w') :
      Follows L R todo (.read fun s => .write (g s) next) w'
  | lost {todo : Nat → Prop} {w : Weave σ (Nat × Except Fault α)}
      {w' : Weave τ (Nat × Except Fault β)} {e : Fault} {i : Nat} (he : L.lost e) (hi : todo i)
      (h : Owes L.within (fun j _ => todo j ∧ j ≠ i) L.lost w todo) : Follows L R todo w w'

theorem Follows.congr (h : Follows L R todo w w') (htodo : ∀ i, todo' i ↔ todo i) :
    Follows L R todo' w w' := by
  obtain rfl : todo' = todo := funext fun i => propext (htodo i)
  exact h

theorem Follows.owes (h : Follows L R todo w w') (hlost : ∀ e, L.lost e) :
    Owes L.within (fun i _ => todo i) L.lost w todo := by
  induction h with
  | ended htodo => exact htodo
  | @note todo i r r' _ _ hi _ _ ih =>
    refine ⟨?_, ih.imp fun j _ hj => hj.1⟩
    cases r with
    | ok a => exact hi
    | error e => exact hlost e
  | read _ ih => exact ih
  | write hs _ _ ih => exact ⟨hs, ih⟩
  | wait _ _ ih => exact ih
  | look _ ih => exact ih
  | idle hg _ ih => exact fun s hs => ⟨L.within_idle hg hs, ih⟩
  | lost _ _ h => exact h.imp fun j _ hj => hj.1

theorem Follows.ite {c c' : Prop} [Decidable c] [Decidable c'] (hc : c ↔ c')
    (h : Follows L R todo w w') (h' : Follows L R todo v v') :
    Follows L R todo (if c then w else v) (if c' then w' else v') := by
  by_cases hcase : c
  · rw [if_pos hcase, if_pos (hc.1 hcase)]
    exact h
  · rw [if_neg hcase, if_neg fun h => hcase (hc.2 h)]
    exact h'

theorem Follows.turn {ready : σ → Bool} {ready' : τ → Bool} (h : Follows L R todo w w')
    (hready : ∀ s, L.within s → ready s = ready' (L.image s)) :
    Follows L R todo (turn ready w) (turn ready' w') :=
  .read fun s hs => .ite (by rw [hready s hs]) h (.wait hready h)

theorem follows_ofAction {x : Action σ α} {y : Action τ β} (h : Action.Follows L R x y) (i : Nat) :
    Follows L R (· = i) (ofAction (i, ·) x) (ofAction (i, ·) y) := by
  induction h with
  | done h => exact .note rfl h (.ended fun j hj => hj.2 hj.1)
  | read _ ih => exact .read ih
  | write hs ht _ ih => exact .write hs ht ih
  | wait hready _ ih => exact .wait hready ih
  | look _ ih => exact .look ih
  | idle hg _ ih => exact .idle hg ih
  | lost he h =>
    refine .lost he rfl ((owes_ofAction (P := fun _ _ => False) h).imp fun _ _ h => h.elim)

/-- The second of two weaves, while the first waits. -/
theorem Follows.besides {ready : σ → Bool} {ready' : τ → Bool} (hall : L.AllOrNone)
    (h : Follows L R todo w w') (hready : ∀ s, L.within s → ready s = ready' (L.image s))
    (hboth : ∀ {u : Weave σ (Nat × Except Fault α)} {u' : Weave τ (Nat × Except Fault β)}
      {todo' : Nat → Prop}, (∀ i, todo i → ¬ todo' i) → Follows L R todo' u u' →
        Follows L R (fun i => todo i ∨ todo' i) (both w u) (both w' u'))
    (h' : Follows L R todo' v v') (hapart : ∀ i, todo i → ¬ todo' i) :
    Follows L R (fun i => todo i ∨ todo' i) (besides ready w (both w) v)
      (besides ready' w' (both w') v') := by
  induction h' with
  | ended htodo => exact .wait hready (h.congr fun i => or_iff_left (htodo i))
  | @note todo' i _ _ _ _ hi hr _ ih =>
    refine .note (.inr hi) hr ((ih fun j hj hj' => hapart j hj hj'.1).congr fun j => ?_)
    have hne : todo j → j ≠ i := fun hj he => hapart j hj (he ▸ hi)
    grind
  | read _ ih => exact .read fun s hs => ih s hs hapart
  | write hs ht _ ih => exact .write hs ht (ih hapart)
  | @wait todo' ready₂ ready₂' _ _ hready₂ h' ih =>
    have heither (s : σ) (hs : L.within s) :
        (ready s || ready₂ s) = (ready' (L.image s) || ready₂' (L.image s)) := by
      rw [hready s hs, hready₂ s hs]
    refine .wait heither (.read fun s hs => .ite (by rw [hready s hs]) ?_ (ih hapart))
    exact hboth hapart (h'.turn hready₂)
  | look _ ih => exact .look fun s hs => ih s hs hapart
  | idle hg _ ih => exact .idle hg (ih hapart)
  | @lost todo' v _ e i he hi h' =>
    let P (j : Nat) (_ : α) : Prop := (todo j ∨ todo' j) ∧ j ≠ i
    have hw : Owes L.within P L.lost w todo :=
      (h.owes fun e' => hall e e' he).imp fun j _ hj => ⟨.inl hj, fun hji => hapart j hj (hji ▸ hi)⟩
    have hv : Owes L.within P L.lost v todo' := h'.imp fun j _ hj => ⟨.inr hj.1, hj.2⟩
    exact .lost he (.inr hi) (hw.besides w hv fun hu => hw.both hu)

/-- Two weaves together follow two others, if they note outcomes for different numbers. -/
theorem Follows.both (hall : L.AllOrNone) (h : Follows L R todo w w')
    (h' : Follows L R todo' v v') (hapart : ∀ i, todo i → ¬ todo' i) :
    Follows L R (fun i => todo i ∨ todo' i) (both w v) (both w' v') := by
  induction h generalizing todo' v v' with
  | ended htodo => exact h'.congr fun i => or_iff_right (htodo i)
  | @note todo i _ _ _ _ hi hr _ ih =>
    refine .note (.inl hi) hr ((ih h' fun j hj => hapart j hj.1).congr fun j => ?_)
    have hne : todo' j → j ≠ i := fun hj he => hapart i hi (he ▸ hj)
    grind
  | read _ ih => exact .read fun s hs => ih s hs h' hapart
  | write hs ht _ ih => exact .write hs ht (ih h' hapart)
  | wait hready h ih => exact h.besides hall hready (fun hapart hu => ih hu hapart) h' hapart
  | look _ ih => exact .look fun s hs => ih s hs h' hapart
  | idle hg _ ih => exact .idle hg (ih h' hapart)
  | @lost todo w _ e i he hi h =>
    let P (j : Nat) (_ : α) : Prop := (todo j ∨ todo' j) ∧ j ≠ i
    have hw : Owes L.within P L.lost w todo := h.imp fun j _ hj => ⟨.inl hj.1, hj.2⟩
    have hv : Owes L.within P L.lost v todo' :=
      (h'.owes fun e' => hall e e' he).imp fun j _ hj =>
        ⟨.inr hj, fun hji => hapart i hi (hji ▸ hj)⟩
    exact .lost he (.inl hi) (hw.both hv)

end Weave

namespace Action

/-- Outcomes so far that are missing at the same places, and alike elsewhere. -/
abbrev Outcomes.Alike (R : α → β → Prop) : Outcomes α → Outcomes β → Prop :=
  List.Forall₂ (Option.Rel (Verdict.Alike R))

theorem Outcomes.Alike.set {l : Outcomes α} {l' : Outcomes β} (h : Outcomes.Alike R l l')
    {r : Except Fault α} {r' : Except Fault β} (hr : Verdict.Alike R r r') (i : Nat) :
    Outcomes.Alike R (l.set i (some r)) (l'.set i (some r')) := by
  induction h generalizing i with
  | nil => exact .nil
  | cons ha hl ih =>
    cases i with
    | zero => exact .cons (.some hr) hl
    | succ i => exact .cons ha (ih i)

theorem Outcomes.Alike.inOrder {l : Outcomes α} {l' : Outcomes β} (h : Outcomes.Alike R l l') :
    Option.Rel (Verdict.Alike (List.Forall₂ R)) (inOrder l) (inOrder l') := by
  induction h with
  | nil => exact .some (.ok .nil)
  | cons ha _ ih =>
    cases ha with
    | none => exact .none
    | some hr =>
      cases hr with
      | error e => exact .some (.error e)
      | @ok a b hab =>
        simp only [Outcomes.inOrder]
        revert ih
        generalize Outcomes.inOrder _ = o, Outcomes.inOrder _ = o'
        intro ih
        cases ih with
        | none => exact .none
        | some h =>
          cases h with
          | error e => exact .some (.error e)
          | ok h => exact .some (.ok (.cons hab h))

theorem Outcomes.Alike.findSome?_fault? {l : Outcomes α} {l' : Outcomes β}
    (h : Outcomes.Alike R l l') : l.findSome? fault? = l'.findSome? fault? := by
  induction h with
  | nil => rfl
  | cons ha _ ih =>
    cases ha with
    | none => exact ih
    | some hr =>
      cases hr with
      | error e => rfl
      | ok _ => exact ih

theorem Outcomes.Alike.decided {l : Outcomes α} {l' : Outcomes β} (h : Outcomes.Alike R l l')
    (many : Bool) :
    Option.Rel (Verdict.Alike (List.Forall₂ R)) (decided many l) (decided many l') := by
  cases many with
  | true => exact h.inOrder
  | false =>
    simp only [Outcomes.decided, Bool.false_eq_true, if_false, h.findSome?_fault?]
    cases l'.findSome? fault? with
    | none => exact h.inOrder
    | some e => exact .some (.error e)

theorem follows_settle (many : Bool) {todo : Nat → Prop} {w : Weave σ (Nat × Except Fault α)}
    {w' : Weave τ (Nat × Except Fault β)} (hall : L.AllOrNone) (h : w.Follows L R todo w')
    {l : Outcomes α} {l' : Outcomes β} (hl : Outcomes.Alike R l l')
    (htodo : ∀ i, l[i]? = some none ↔ todo i) :
    Follows L (List.Forall₂ R) (settle many l w) (settle many l' w') := by
  induction h generalizing l l' with
  | ended _ =>
    simp only [settle]
    have hdecided := hl.decided many
    revert hdecided
    generalize Outcomes.decided many l = o, Outcomes.decided many l' = o'
    intro hdecided
    cases hdecided with
    | none => exact .done (.ok .nil)
    | some h => exact .done h
  | @note todo i r r' next next' hi hr _ ih =>
    have hset := hl.set hr i
    have hlt := (List.getElem?_eq_some_iff.1 ((htodo i).2 hi)).1
    have hpending (j : Nat) : (l.set i (some r))[j]? = some none ↔ todo j ∧ j ≠ i := by
      rw [List.getElem?_set, ← htodo j]
      grind
    have hrest := ih hset hpending
    simp only [settle]
    have hdecided := hset.decided many
    revert hdecided
    generalize Outcomes.decided many (l.set i (some r)) = o,
      Outcomes.decided many (l'.set i (some r')) = o'
    intro hdecided
    cases hdecided with
    | none => exact hrest
    | some h => exact .done h
  | read _ ih => exact .read fun s hs => ih s hs hl htodo
  | write hs ht _ ih => exact .write hs ht (ih hl htodo)
  | wait hready _ ih => exact .wait hready (ih hl htodo)
  | look _ ih => exact .look fun s hs => ih s hs hl htodo
  | idle hg _ ih => exact .idle hg (ih hl htodo)
  | @lost todo w w' e i he hi h =>
    have hnoted (j : Nat) (r : Except Fault α) (hj : l[j]? = some (some r)) :
        Meets (fun _ => j ≠ i) L.lost r := by
      cases r with
      | ok a =>
        rintro rfl
        cases hj.symm.trans ((htodo j).2 hi)
      | error e' => exact hall e e' he
    have hsettle := ensures_settle many (h.imp fun _ _ hj => hj.2)
      (fun j hj => (htodo j).1 hj) hnoted
    refine .lost he (hsettle.mono (fun as has => ?_) fun _ h => h)
    -- the list of results has one at the place of the lost action
    have hlt : i < as.length := has.1 ▸ (List.getElem?_eq_some_iff.1 ((htodo i).2 hi)).1
    exact has.2 i _ (List.getElem?_eq_getElem hlt) rfl

theorem follows_weave {xs : List (Action σ α)} {ys : List (Action τ β)} (hall : L.AllOrNone)
    (h : List.Forall₂ (Follows L R) xs ys) :
    (weave xs).Follows L R (· < xs.length) (weave ys) := by
  have hfrom (n : Nat) : Weave.Follows L R (fun i => n ≤ i ∧ i < n + xs.length)
      ((xs.zipIdx n).foldr (fun x w => (Weave.ofAction (x.2, ·) x.1).both w) .ended)
      ((ys.zipIdx n).foldr (fun x w => (Weave.ofAction (x.2, ·) x.1).both w) .ended) := by
    induction h generalizing n with
    | nil => exact .ended fun i hi => by simp at hi; omega
    | cons hx _ ih =>
      refine ((Weave.follows_ofAction hx n).both hall (ih (n + 1)) ?_).congr fun i => ?_
      · intro i hi
        omega
      · rw [List.length_cons]
        omega
  exact (hfrom 0).congr fun i => by simp

/-- Together, actions follow as many others. -/
theorem Follows.together {xs : List (Action σ α)} {ys : List (Action τ β)} (hall : L.AllOrNone)
    (h : List.Forall₂ (Follows L R) xs ys) (size : Nat) :
    Follows L (List.Forall₂ R) (together size xs) (together size ys) := by
  refine follows_settle _ hall (follows_weave hall h) ?_ fun i => ?_
  · clear hall
    induction h with
    | nil => exact .nil
    | cons _ _ ih => exact .cons .none ih
  · rw [List.getElem?_map]
    grind

end Action

namespace Slot

/-- Slots that wait for tasks of one priority of which one follows the other, or that have settled
alike. -/
inductive Follows (L : Likeness σ τ) (R : α → β → Prop) : Slot σ α → Slot τ β → Prop
  | waiting {task : Task σ α} {task' : Task τ β} (hpriority : task.priority = task'.priority)
      (hsubject : R task.subject task'.subject)
      (hrun : Action.Follows L (fun v v' => v.1 = v'.1 ∧ R v.2 v'.2) task.run task'.run) :
      Follows L R (.waiting task) (.waiting task')
  | settled {verdict : Bool} {a : α} {b : β} (h : R a b) :
      Follows L R (.settled verdict a) (.settled verdict b)

variable {slot : Slot σ α} {slot' : Slot τ β}

theorem Follows.subject (h : Follows L R slot slot') : R slot.subject slot'.subject := by
  cases h with
  | waiting _ hsubject _ => exact hsubject
  | settled h => exact h

theorem Follows.hasVerdict_eq (h : Follows L R slot slot') (b : Bool) :
    slot.hasVerdict b = slot'.hasVerdict b := by
  cases h <;> rfl

theorem Follows.isIn_eq (h : Follows L R slot slot') (p : Int64) : slot.isIn p = slot'.isIn p := by
  cases h with
  | waiting hpriority _ _ => rw [isIn, isIn, hpriority]
  | settled _ => rfl

theorem Follows.advance (h : Follows L R slot slot') (p : Int64) :
    Action.Follows L (Follows L R) (slot.advance p) (slot'.advance p) := by
  cases h with
  | settled h => exact .pure (.settled h)
  | waiting hpriority hsubject hrun =>
    refine Action.Follows.ite (by rw [hpriority]) ?_ (.pure (.waiting hpriority hsubject hrun))
    refine hrun.bind ?_
    rintro ⟨verdict, a⟩ ⟨verdict', b⟩ ⟨rfl, h⟩
    exact .pure (.settled h)

end Slot

namespace Schedule

/-- Lists of related elements agree in what related elements agree in. -/
theorem map_eq_of_forall₂ {γ δ ε : Type} {S : γ → δ → Prop} {f : γ → ε} {g : δ → ε} {l : List γ}
    {l' : List δ} (h : List.Forall₂ S l l') (hfg : ∀ a b, S a b → f a = g b) :
    l.map f = l'.map g := by
  rw [← List.forall₂_eq_eq_eq, List.forall₂_map_left_iff, List.forall₂_map_right_iff]
  exact h.imp hfg

theorem follows_rounds (hall : L.AllOrNone) (neutral : Bool) (ps : List Int64)
    {slots : List (Slot σ α)} {slots' : List (Slot τ β)}
    (h : List.Forall₂ (Slot.Follows L R) slots slots') :
    Follows L (fun r r' => r.1 = r'.1 ∧ List.Forall₂ (Slot.Follows L R) r.2 r'.2)
      (rounds neutral ps slots) (rounds neutral ps slots') := by
  induction ps generalizing slots slots' with
  | nil => exact .pure ⟨rfl, h⟩
  | cons p ps ih =>
    have hcount : slots.countP (Slot.isIn p) = slots'.countP (Slot.isIn p) := by
      have hmap := map_eq_of_forall₂ h fun _ _ h => h.isIn_eq p
      simpa only [List.countP_map, Function.id_comp] using congrArg (List.countP id) hmap
    have hadvance : List.Forall₂ (Follows L (Slot.Follows L R)) (slots.map (Slot.advance p))
        (slots'.map (Slot.advance p)) := by
      rw [List.forall₂_map_left_iff, List.forall₂_map_right_iff]
      exact h.imp fun _ _ h => h.advance p
    rw [rounds, rounds, hcount]
    refine (Follows.together hall hadvance _).bind fun slots slots' h => ?_
    have hany : slots.any (Slot.hasVerdict !neutral) = slots'.any (Slot.hasVerdict !neutral) := by
      have hmap := map_eq_of_forall₂ h fun _ _ h => h.hasVerdict_eq !neutral
      simpa only [List.any_map, Function.id_comp] using congrArg (List.any · id) hmap
    exact .ite (by rw [hany]) (.pure ⟨rfl, h⟩) (ih h)

/-- A schedule follows one of as many tasks, in which each task has the priority of one that
follows it. -/
theorem follows_run (hall : L.AllOrNone) (neutral : Bool) {tasks : List (Task σ α)}
    {tasks' : List (Task τ β)}
    (h : List.Forall₂ (fun task task' => Slot.Follows L R (.waiting task) (.waiting task')) tasks
      tasks') :
    Follows L (fun r r' => r.1 = r'.1 ∧ List.Forall₂ R r.2 r'.2) (run neutral tasks)
      (run neutral tasks') := by
  have hpriorities : priorities tasks = priorities tasks' := by
    have hmap : tasks.map (·.priority) = tasks'.map (·.priority) := by
      refine map_eq_of_forall₂ h fun task task' h => ?_
      cases h with
      | waiting hpriority _ _ => exact hpriority
    rw [priorities, priorities, hmap]
  have hslots : List.Forall₂ (Slot.Follows L R) (tasks.map .waiting) (tasks'.map .waiting) := by
    rw [List.forall₂_map_left_iff, List.forall₂_map_right_iff]
    exact h
  rw [run, run, hpriorities]
  refine (follows_rounds hall neutral _ hslots).bind ?_
  rintro ⟨verdict, slots⟩ ⟨verdict', slots'⟩ ⟨rfl, h⟩
  refine .pure ⟨rfl, ?_⟩
  rw [List.forall₂_map_left_iff, List.forall₂_map_right_iff]
  exact h.imp fun _ _ h => h.subject

end Schedule
end Verdict
