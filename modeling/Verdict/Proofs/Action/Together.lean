import Verdict.Action.Together
import Verdict.Proofs.Action.Ensures

/-!
# What actions side by side ensure

Each outcome of actions that take turns is one that its action ensures, and none of them is
missing when the turns end. So a list of results has a result of each action, and a fault is a
fault of one of them.
-/
namespace Verdict
open Verdict.Action

namespace Weave
variable {σ α : Type}

/-- The weave keeps the state within `I`. Every outcome that it notes is a result that `P` allows
for its action or a fault in `E`, and it notes one for each number in `todo`. -/
def Owes (I : σ → Prop) (P : Nat → α → Prop) (E : Fault → Prop) :
    Weave σ (Nat × Except Fault α) → (Nat → Prop) → Prop
  | ended, todo => ∀ i, ¬ todo i
  | note n next, todo => Meets (P n.1) E n.2 ∧ Owes I P E next fun i => todo i ∧ i ≠ n.1
  | read next, todo => ∀ s, I s → Owes I P E (next s) todo
  | write s next, todo => I s ∧ Owes I P E next todo
  | wait _ next, todo => Owes I P E next todo

variable {I : σ → Prop} {P : Nat → α → Prop} {E : Fault → Prop} {todo todo' : Nat → Prop}
variable {w w' : Weave σ (Nat × Except Fault α)}

theorem Owes.mono (h : Owes I P E w todo) (hle : ∀ i, todo' i → todo i) : Owes I P E w todo' := by
  induction w generalizing todo todo' with
  | ended => exact fun i hi => h i (hle i hi)
  | note n next ih => exact ⟨h.1, ih h.2 fun i hi => ⟨hle i hi.1, hi.2⟩⟩
  | read next ih => exact fun s hs => ih s (h s hs) hle
  | write s next ih => exact ⟨h.1, ih h.2 hle⟩
  | wait ready next ih => exact ih h hle

theorem Owes.ite {c : Prop} [Decidable c] (h : Owes I P E w todo) (h' : Owes I P E w' todo) :
    Owes I P E (if c then w else w') todo := by
  split
  · exact h
  · exact h'

theorem Owes.turn {ready : σ → Bool} (h : Owes I P E w todo) :
    Owes I P E (turn ready w) todo :=
  fun _ _ => Owes.ite h h

theorem owes_ofAction {x : Action σ α} {i : Nat} (h : Ensures I (P i) E x) :
    Owes I P E (ofAction (i, ·) x) (· = i) := by
  induction x with
  | done r => exact ⟨h, fun j hj => hj.2 hj.1⟩
  | read next ih => exact fun s hs => ih s (h s hs)
  | write s next ih => exact ⟨h.1, ih h.2⟩
  | wait ready next ih => exact ih h

theorem Owes.besides {ready : σ → Bool} (rest : Weave σ (Nat × Except Fault α))
    {resume : Weave σ (Nat × Except Fault α) → Weave σ (Nat × Except Fault α)}
    (hrest : Owes I P E rest todo) (h : Owes I P E w todo')
    (hresume : ∀ {v todo'}, Owes I P E v todo' →
      Owes I P E (resume v) fun i => todo i ∨ todo' i) :
    Owes I P E (besides ready rest resume w) fun i => todo i ∨ todo' i := by
  induction w generalizing todo' with
  | ended => exact hrest.mono fun i hi => hi.resolve_right (h i)
  | note n next ih =>
    refine ⟨h.1, (ih h.2).mono fun i hi => ?_⟩
    exact hi.1.imp_right fun hi' => ⟨hi', hi.2⟩
  | read next ih => exact fun s hs => ih s (h s hs)
  | write s next ih => exact ⟨h.1, ih h.2⟩
  | wait ready' next ih => exact fun _ _ => Owes.ite (hresume (Owes.turn h)) (ih h)

/-- Two weaves together note what either has to note. -/
theorem Owes.both (h : Owes I P E w todo) (h' : Owes I P E w' todo') :
    Owes I P E (both w w') fun i => todo i ∨ todo' i := by
  induction w generalizing todo todo' w' with
  | ended => exact Owes.mono h' fun i hi => hi.resolve_left (h i)
  | note n next ih =>
    refine ⟨h.1, (ih h.2 h').mono fun i hi => ?_⟩
    exact hi.1.imp_left fun hi' => ⟨hi', hi.2⟩
  | read next ih => exact fun s hs => ih s (h s hs) h'
  | write s next ih => exact ⟨h.1, ih h.2 h'⟩
  | wait ready next ih => exact Owes.besides next h h' fun hv => ih h hv

end Weave

namespace Action
variable {σ α : Type}

theorem Outcomes.eq_map_of_inOrder_eq_ok {l : Outcomes α} {as : List α}
    (h : inOrder l = some (.ok as)) : l = as.map fun a => some (.ok a) := by
  induction l generalizing as with
  | nil =>
    cases h
    rfl
  | cons r rest ih =>
    rcases r with - | e | a
    · cases h
    · cases h
    · cases hrest : inOrder rest with
      | none => simp [inOrder, hrest] at h
      | some outcome =>
        cases outcome with
        | error e => simp [inOrder, hrest, Except.map] at h
        | ok as' =>
          simp only [inOrder, hrest, Option.map_some, Except.map, Option.some.injEq,
            Except.ok.injEq] at h
          rw [← h, ih hrest]
          rfl

theorem Outcomes.mem_of_inOrder_eq_error {l : Outcomes α} {e : Fault}
    (h : inOrder l = some (.error e)) : some (.error e) ∈ l := by
  induction l with
  | nil => cases h
  | cons r rest ih =>
    rcases r with - | e' | a
    · cases h
    · cases h
      exact List.mem_cons_self
    · cases hrest : inOrder rest with
      | none => simp [inOrder, hrest] at h
      | some outcome =>
        cases outcome with
        | error e' =>
          simp only [inOrder, hrest, Option.map_some, Except.map, Option.some.injEq,
            Except.error.injEq] at h
          exact List.mem_cons_of_mem _ (ih (by rw [hrest, h]))
        | ok as => simp [inOrder, hrest, Except.map] at h

theorem Outcomes.mem_of_inOrder_eq_none {l : Outcomes α} (h : inOrder l = none) : none ∈ l := by
  induction l with
  | nil => cases h
  | cons r rest ih =>
    rcases r with - | e | a
    · exact List.mem_cons_self
    · cases h
    · simp only [inOrder, Option.map_eq_none_iff] at h
      exact List.mem_cons_of_mem _ (ih h)

theorem Outcomes.fault?_eq_some {r : Option (Except Fault α)} {e : Fault}
    (h : fault? r = some e) : r = some (.error e) := by
  rcases r with - | e' | a
  · cases h
  · cases h
    rfl
  · cases h

/-- Outcomes decide a list of results only if each is a result, and a fault only if one is. -/
theorem Outcomes.meets_of_decided_eq_some {many : Bool} {l : Outcomes α}
    {r : Except Fault (List α)} (h : decided many l = some r) :
    Meets (fun as => l = as.map fun a => some (.ok a)) (fun e => some (.error e) ∈ l) r := by
  have hin (h : inOrder l = some r) :
      Meets (fun as => l = as.map fun a => some (.ok a)) (fun e => some (.error e) ∈ l) r := by
    cases r with
    | ok as => exact eq_map_of_inOrder_eq_ok h
    | error e => exact mem_of_inOrder_eq_error h
  cases many with
  | true => exact hin h
  | false =>
    cases hfind : l.findSome? fault? with
    | none => exact hin (by simpa [decided, hfind] using h)
    | some e =>
      obtain ⟨r', hr', hfault⟩ := List.exists_of_findSome?_eq_some hfind
      have he : r = .error e := by simpa [decided, hfind] using h.symm
      rw [fault?_eq_some hfault] at hr'
      rw [he]
      exact hr'

theorem Outcomes.mem_of_decided_eq_none {many : Bool} {l : Outcomes α}
    (h : decided many l = none) : none ∈ l := by
  unfold decided at h
  split at h
  · cases h
  · exact mem_of_inOrder_eq_none h

variable {I : σ → Prop} {P : Nat → α → Prop} {E : Fault → Prop}

/-- What a list of results of several actions satisfies. -/
def EachMeets (P : Nat → α → Prop) (length : Nat) (as : List α) : Prop :=
  as.length = length ∧ ∀ i a, as[i]? = some a → P i a

theorem Outcomes.meets_of_decided {many : Bool} {l : Outcomes α} {r : Except Fault (List α)}
    (hnoted : ∀ i r, l[i]? = some (some r) → Meets (P i) E r) (h : decided many l = some r) :
    Meets (EachMeets P l.length) E r := by
  have hr := meets_of_decided_eq_some h
  cases r with
  | ok as =>
    have hl : l = as.map fun a => some (.ok a) := hr
    refine ⟨by simp [hl], fun i a ha => ?_⟩
    have hi : l[i]? = some (some (.ok a)) := by simp [hl, ha]
    exact hnoted i _ hi
  | error e =>
    obtain ⟨i, hi⟩ := List.getElem?_of_mem hr
    exact hnoted i _ hi

theorem ensures_settle (many : Bool) {l : Outcomes α} {w : Weave σ (Nat × Except Fault α)}
    {todo : Nat → Prop} (hw : w.Owes I P E todo) (htodo : ∀ i, l[i]? = some none → todo i)
    (hnoted : ∀ i r, l[i]? = some (some r) → Meets (P i) E r) :
    Ensures I (EachMeets P l.length) E (settle many l w) := by
  induction w generalizing l todo with
  | ended =>
    cases h : Outcomes.decided many l with
    | none =>
      obtain ⟨i, hi⟩ := List.getElem?_of_mem (Outcomes.mem_of_decided_eq_none h)
      exact absurd (htodo i hi) (hw i)
    | some r =>
      simp only [settle, h, Option.getD_some]
      exact Outcomes.meets_of_decided hnoted h
  | note n next ih =>
    have hnoted' : ∀ i r, (l.set n.1 (some n.2))[i]? = some (some r) → Meets (P i) E r := by
      intro i r hi
      rw [List.getElem?_set] at hi
      split at hi
      · rename_i hn
        split at hi
        · cases hi
          exact hn ▸ hw.1
        · cases hi
      · exact hnoted i r hi
    cases h : Outcomes.decided many (l.set n.1 (some n.2)) with
    | some r =>
      have hr := Outcomes.meets_of_decided hnoted' h
      rw [List.length_set] at hr
      simp only [settle, h]
      exact hr
    | none =>
      have hrest := ih (l := l.set n.1 (some n.2)) hw.2 (fun i hi => ?_) hnoted'
      · rw [List.length_set] at hrest
        simpa only [settle, h] using hrest
      · rw [List.getElem?_set] at hi
        split at hi
        · split at hi <;> cases hi
        · rename_i hn
          exact ⟨htodo i hi, Ne.symm hn⟩
  | read next ih => exact fun s hs => ih s (hw s hs) htodo hnoted
  | write s next ih => exact ⟨hw.1, ih hw.2 htodo hnoted⟩
  | wait ready next ih => exact ih hw htodo hnoted

theorem owes_weave {actions : List (Action σ α)}
    (h : ∀ i x, actions[i]? = some x → Ensures I (P i) E x) :
    (weave actions).Owes I P E (· < actions.length) := by
  have hfold (l : List (Action σ α × Nat)) (hl : ∀ x ∈ l, Ensures I (P x.2) E x.1) :
      (l.foldr (fun x w => (Weave.ofAction (x.2, ·) x.1).both w) Weave.ended).Owes I P E
        fun i => ∃ x, (x, i) ∈ l := by
    induction l with
    | nil =>
      rintro i ⟨x, hx⟩
      cases hx
    | cons p rest ih =>
      have hp := Weave.owes_ofAction (hl p (by simp))
      refine (hp.both (ih fun x hx => hl x (by simp [hx]))).mono ?_
      rintro i ⟨x, hx⟩
      rcases List.mem_cons.1 hx with rfl | hx
      · exact .inl rfl
      · exact .inr ⟨x, hx⟩
  refine (hfold actions.zipIdx fun x hx => h x.2 x.1 (List.mem_zipIdx_iff_getElem?.1 hx)).mono ?_
  intro i hi
  exact ⟨actions[i], List.mem_zipIdx_iff_getElem?.2 (List.getElem?_eq_getElem hi)⟩

/-- Together, actions ensure a result of each of them or a fault of one. -/
theorem Ensures.together (size : Nat) (actions : List (Action σ α))
    (h : ∀ i x, actions[i]? = some x → Ensures I (P i) E x) :
    Ensures I (EachMeets P actions.length) E (together size actions) := by
  have hsettle := ensures_settle (few < size)
    (l := (actions.map fun _ => none : Outcomes α)) (owes_weave h) (fun i hi => ?_) fun i r hi => ?_
  · rw [List.length_map] at hsettle
    exact hsettle
  · have hlt := (List.getElem?_eq_some_iff.1 hi).1
    rwa [List.length_map] at hlt
  · rw [List.getElem?_map, Option.map_eq_some_iff] at hi
    obtain ⟨x, -, hx⟩ := hi
    cases hx

end Action
end Verdict
