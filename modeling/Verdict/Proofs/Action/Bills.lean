import Mathlib.Algebra.GroupWithZero.Nat
import Verdict.Proofs.Action.Costs
import Verdict.Proofs.Action.Together

/-!
# What actions side by side cost

Each of the actions has a bill. Whoever has its turn spends on its own bill, so in the end the
bills add up to what all have spent, and each is one that its action allows.
-/
namespace Verdict
open Verdict.Action

/-- More is spent on the i-th bill. -/
def charge (bills : Nat → Nat) (i d : Nat) : Nat → Nat :=
  fun j => if j = i then bills j + d else bills j

theorem charge_of_ne {bills : Nat → Nat} {i j : Nat} (h : j ≠ i) (d : Nat) :
    charge bills i d j = bills j :=
  if_neg h

/-- The first so many bills added up. -/
def total (bills : Nat → Nat) (n : Nat) : Nat := ((List.range n).map bills).sum

theorem total_succ (bills : Nat → Nat) (n : Nat) :
    total bills (n + 1) = total bills n + bills n := by
  simp [total, List.range_succ]

theorem total_congr {bills bills' : Nat → Nat} {n : Nat} (h : ∀ i < n, bills i = bills' i) :
    total bills n = total bills' n :=
  congrArg List.sum (List.map_congr_left fun i hi => h i (List.mem_range.1 hi))

theorem total_charge {bills : Nat → Nat} {i n : Nat} (h : i < n) (d : Nat) :
    total (charge bills i d) n = total bills n + d := by
  induction n with
  | zero => cases h
  | succ n ih =>
    rw [total_succ, total_succ]
    by_cases hi : i = n
    · have hbefore : total (charge bills i d) n = total bills n :=
        total_congr fun j hj => charge_of_ne (by omega) d
      rw [hbefore, hi, charge, if_pos rfl, Nat.add_assoc]
    · rw [ih (by omega), charge_of_ne (Ne.symm hi), Nat.add_right_comm]

theorem total_zero (n : Nat) : total (fun _ => 0) n = 0 := by
  induction n with
  | zero => rfl
  | succ n ih => rw [total_succ, ih]

theorem total_add (bills bills' : Nat → Nat) (n : Nat) :
    total (fun i => bills i + bills' i) n = total bills n + total bills' n := by
  induction n with
  | zero => rfl
  | succ n ih =>
    rw [total_succ, total_succ, total_succ, ih]
    omega

namespace Weave
variable {σ α : Type}

/-- From the state, the weave notes a result for each number in `todo`, with a bill that `Q` allows
then, or a fault. All that it spends is on these bills. -/
def Pays (I : σ → Prop) (meter : σ → Nat) (Q : Nat → α → Nat → Prop) :
    Weave σ (Nat × Except Fault α) → σ → (Nat → Nat) → (Nat → Prop) → Prop
  | ended, _, _, todo => ∀ i, ¬ todo i
  | note n next, s, bills, todo => todo n.1 ∧ (∀ a, n.2 = .ok a → Q n.1 a (bills n.1)) ∧
      Pays I meter Q next s bills fun i => todo i ∧ i ≠ n.1
  | read next, s, bills, todo => Pays I meter Q (next s) s bills todo
  | write s' next, s, bills, todo => I s' ∧ ∃ i d, todo i ∧ meter s' = meter s + d ∧
      Pays I meter Q next s' (charge bills i d) todo
  | wait _ next, _, bills, todo => ∀ s, I s → Pays I meter Q next s bills todo

/-- The same from any state within `I`. -/
def PaysFrom (I : σ → Prop) (meter : σ → Nat) (Q : Nat → α → Nat → Prop)
    (w : Weave σ (Nat × Except Fault α)) (bills : Nat → Nat) (todo : Nat → Prop) : Prop :=
  ∀ s, I s → Pays I meter Q w s bills todo

variable {I : σ → Prop} {meter : σ → Nat} {Q : Nat → α → Nat → Prop}
variable {w w' : Weave σ (Nat × Except Fault α)} {s : σ}
variable {bills bills' : Nat → Nat} {todo todo' : Nat → Prop}

/-- Only the bills of what is to do matter. -/
theorem Pays.congr (h : Pays I meter Q w s bills todo) (htodo : ∀ i, todo' i ↔ todo i)
    (hbills : ∀ i, todo i → bills' i = bills i) : Pays I meter Q w s bills' todo' := by
  obtain rfl : todo' = todo := funext fun i => propext (htodo i)
  induction w generalizing s bills bills' todo' with
  | ended => exact h
  | note n next ih =>
    obtain ⟨hn, hQ, hnext⟩ := h
    refine ⟨hn, ?_, ih hnext (fun _ => Iff.rfl) fun i hi => hbills i hi.1⟩
    rwa [hbills n.1 hn]
  | read next ih => exact ih s h (fun _ => Iff.rfl) hbills
  | write s' next ih =>
    obtain ⟨hs', i, d, hi, hd, hnext⟩ := h
    refine ⟨hs', i, d, hi, hd, ih hnext (fun _ => Iff.rfl) fun j hj => ?_⟩
    simp only [charge, hbills j hj]
  | wait ready next ih => exact fun s hs => ih (h s hs) (fun _ => Iff.rfl) hbills

theorem PaysFrom.turn (h : PaysFrom I meter Q w bills todo) (ready : σ → Bool) :
    PaysFrom I meter Q (turn ready w) bills todo := by
  intro s hs
  change Pays I meter Q (if ready s then w else wait ready w) s bills todo
  split
  · exact h s hs
  · exact h

theorem pays_ofAction {x : Action σ α} {i : Nat} (h : Costs I meter (Q i) x s (bills i)) :
    Pays I meter Q (ofAction (i, ·) x) s bills (· = i) := by
  induction x generalizing s bills with
  | done r => exact ⟨rfl, h, fun j hj => hj.2 hj.1⟩
  | read next ih => exact ih s h
  | write s' next ih =>
    obtain ⟨hs', d, hd, hnext⟩ := h
    refine ⟨hs', i, d, rfl, hd, ih ?_⟩
    simpa only [charge, if_true] using hnext
  | wait ready next ih => exact fun s hs => ih (h s hs)

/-- While the first of two weaves waits, nothing is spent on its bills. -/
theorem Pays.besides {ready : σ → Bool} {rest : Weave σ (Nat × Except Fault α)}
    {resume : Weave σ (Nat × Except Fault α) → Weave σ (Nat × Except Fault α)}
    (h : Pays I meter Q w s bills todo') (hapart : ∀ i, todo i → ¬ todo' i)
    (hrest : PaysFrom I meter Q rest bills todo)
    (hresume : ∀ {v bills' todo'}, (∀ i, todo i → bills' i = bills i) →
      (∀ i, todo i → ¬ todo' i) → PaysFrom I meter Q v bills' todo' →
        PaysFrom I meter Q (resume v) bills' fun i => todo i ∨ todo' i) :
    Pays I meter Q (besides ready rest resume w) s bills fun i => todo i ∨ todo' i := by
  induction w generalizing s bills todo' with
  | ended =>
    exact fun s hs => (hrest s hs).congr (fun i => or_iff_left (h i)) fun _ _ => rfl
  | note n next ih =>
    obtain ⟨hn, hQ, hnext⟩ := h
    have hnot (i : Nat) (hi : todo i) : i ≠ n.1 := fun he => hapart i hi (he ▸ hn)
    refine ⟨.inr hn, hQ, (ih hnext (fun i hi hi' => hapart i hi hi'.1) hrest hresume).congr
      (fun i => ?_) fun _ _ => rfl⟩
    exact ⟨fun h => h.1.imp_right fun hi => ⟨hi, h.2⟩,
      fun h => h.elim (fun hi => ⟨.inl hi, hnot i hi⟩) fun hi => ⟨.inr hi.1, hi.2⟩⟩
  | read next ih => exact ih s h hapart hrest hresume
  | write s' next ih =>
    obtain ⟨hs', i, d, hi, hd, hnext⟩ := h
    have hsame (j : Nat) (hj : todo j) : charge bills i d j = bills j :=
      charge_of_ne (fun he : j = i => hapart j hj (he ▸ hi)) d
    refine ⟨hs', i, d, .inr hi, hd, ih hnext hapart ?_ fun hbills => hresume fun j hj => ?_⟩
    · exact fun s hs => (hrest s hs).congr (fun _ => Iff.rfl) hsame
    · exact (hbills j hj).trans (hsame j hj)
  | wait ready' next ih =>
    intro s hs
    change Pays I meter Q (if ready s then resume (Weave.turn ready' next) else _) s bills _
    split
    · exact hresume (fun _ _ => rfl) hapart (PaysFrom.turn h ready') s hs
    · exact ih (h s hs) hapart hrest hresume

/-- Two weaves with different numbers pay for what either has to do. -/
theorem Pays.both (h : Pays I meter Q w s bills todo) (hs : I s)
    (h' : PaysFrom I meter Q w' bills todo') (hapart : ∀ i, todo i → ¬ todo' i) :
    Pays I meter Q (both w w') s bills fun i => todo i ∨ todo' i := by
  induction w generalizing s bills todo todo' w' with
  | ended => exact (h' s hs).congr (fun i => or_iff_right (h i)) fun _ _ => rfl
  | note n next ih =>
    obtain ⟨hn, hQ, hnext⟩ := h
    have hnot (i : Nat) (hi : todo' i) : i ≠ n.1 := fun he => hapart n.1 hn (he ▸ hi)
    refine ⟨.inl hn, hQ, (ih hnext hs h' fun i hi => hapart i hi.1).congr
      (fun i => ?_) fun _ _ => rfl⟩
    exact ⟨fun h => h.1.imp_left fun hi => ⟨hi, h.2⟩,
      fun h => h.elim (fun hi => ⟨.inl hi.1, hi.2⟩) fun hi => ⟨.inr hi, hnot i hi⟩⟩
  | read next ih => exact ih s h hs h' hapart
  | write s' next ih =>
    obtain ⟨hs', i, d, hi, hd, hnext⟩ := h
    refine ⟨hs', i, d, .inl hi, hd, ih hnext hs' (fun s hs => ?_) hapart⟩
    exact (h' s hs).congr (fun _ => Iff.rfl) fun j hj =>
      charge_of_ne (fun he : j = i => hapart i hi (he ▸ hj)) d
  | wait ready next ih =>
    refine Pays.besides (h' s hs) hapart h fun hbills hapart' hv s hs => ?_
    exact ih ((h s hs).congr (fun _ => Iff.rfl) hbills) hs hv hapart'

end Weave

namespace Action
variable {σ α : Type} {I : σ → Prop} {meter : σ → Nat} {Q : Nat → α → Nat → Prop}
variable {bills : Nat → Nat} {todo : Nat → Prop} {s : σ}

/-- A list of results has a bill for each, which `Q` allows. -/
def EachCosts (Q : Nat → α → Nat → Prop) (length : Nat) (as : List α) (spent : Nat) : Prop :=
  as.length = length ∧ ∃ bills, spent = total bills length ∧
    ∀ i a, as[i]? = some a → Q i a (bills i)

/-- What is noted is paid for by its bill, and what is to do is not noted yet. -/
structure Booked (Q : Nat → α → Nat → Prop) (l : Outcomes α) (bills : Nat → Nat)
    (todo : Nat → Prop) : Prop where
  todo_iff : ∀ i, todo i ↔ l[i]? = some none
  noted : ∀ i a, l[i]? = some (some (.ok a)) → Q i a (bills i)

namespace Booked
variable {l : Outcomes α} {i : Nat}

theorem lt_length (h : Booked Q l bills todo) (hi : todo i) : i < l.length :=
  (List.getElem?_eq_some_iff.1 ((h.todo_iff i).1 hi)).1

theorem note (h : Booked Q l bills todo) (hi : todo i) {r : Except Fault α}
    (hr : ∀ a, r = .ok a → Q i a (bills i)) :
    Booked Q (l.set i (some r)) bills fun j => todo j ∧ j ≠ i := by
  have hlt := h.lt_length hi
  refine ⟨fun j => ?_, fun j a hj => ?_⟩
  · by_cases he : i = j
    · simp [← he, List.getElem?_set_self hlt]
    · rw [List.getElem?_set_ne he, ← h.todo_iff j]
      exact and_iff_left (Ne.symm he)
  · by_cases he : i = j
    · rw [← he, List.getElem?_set_self hlt] at hj
      exact he ▸ hr a (Option.some.inj (Option.some.inj hj))
    · rw [List.getElem?_set_ne he] at hj
      exact h.noted j a hj

theorem charge (h : Booked Q l bills todo) (hi : todo i) (d : Nat) :
    Booked Q l (charge bills i d) todo := by
  refine ⟨h.todo_iff, fun j a hj => ?_⟩
  have hne : j ≠ i := by
    rintro rfl
    rw [(h.todo_iff j).1 hi] at hj
    cases hj
  rw [charge_of_ne hne]
  exact h.noted j a hj

theorem eachCosts (h : Booked Q l bills todo) {many : Bool} {as : List α}
    (has : Outcomes.decided many l = some (.ok as)) :
    EachCosts Q l.length as (total bills l.length) := by
  have hl : l = as.map fun a => some (.ok a) := Outcomes.meets_of_decided_eq_some has
  refine ⟨by simp [hl], bills, rfl, fun i a ha => h.noted i a ?_⟩
  simp [hl, ha]

end Booked

theorem costs_settle (many : Bool) {l : Outcomes α} {w : Weave σ (Nat × Except Fault α)}
    (hw : w.Pays I meter Q s bills todo) (hl : Booked Q l bills todo) :
    Costs I meter (EachCosts Q l.length) (settle many l w) s (total bills l.length) := by
  induction w generalizing l s bills todo with
  | ended =>
    rintro as has
    cases h : Outcomes.decided many l with
    | none =>
      obtain ⟨i, hi⟩ := List.getElem?_of_mem (Outcomes.mem_of_decided_eq_none h)
      exact absurd ((hl.todo_iff i).2 hi) (hw i)
    | some r =>
      rw [h, Option.getD_some] at has
      exact hl.eachCosts (has ▸ h)
  | note n next ih =>
    obtain ⟨hn, hQ, hnext⟩ := hw
    have hnoted := hl.note hn hQ
    have hlength : (l.set n.1 (some n.2)).length = l.length := List.length_set
    rw [← hlength]
    simp only [settle]
    split
    · rename_i r h
      rintro as rfl
      exact hnoted.eachCosts h
    · exact ih hnext hnoted
  | read next ih => exact ih s hw hl
  | write s' next ih =>
    obtain ⟨hs', i, d, hi, hd, hnext⟩ := hw
    refine ⟨hs', d, hd, ?_⟩
    rw [← total_charge (hl.lt_length hi)]
    exact ih hnext (hl.charge hi d)
  | wait ready next ih => exact fun s hs => ih (hw s hs) hl

theorem pays_weave {actions : List (Action σ α)}
    (h : ∀ i x, actions[i]? = some x → CostsFrom I meter (Q i) x 0) :
    (weave actions).PaysFrom I meter Q (fun _ => 0) (· < actions.length) := by
  -- the numbers of the actions from the k-th on
  have hfold (rest : List (Action σ α)) (k : Nat)
      (hrest : ∀ i x, rest[i]? = some x → CostsFrom I meter (Q (k + i)) x 0) :
      ((rest.zipIdx k).foldr (fun y w => (Weave.ofAction (y.2, ·) y.1).both w)
        Weave.ended).PaysFrom I meter Q (fun _ => 0) fun i => k ≤ i ∧ i < k + rest.length := by
    induction rest generalizing k with
    | nil =>
      intro s _ i hi
      exact absurd hi.2 (Nat.not_lt.2 hi.1)
    | cons x rest ih =>
      intro s hs
      have hx : Weave.Pays I meter Q (Weave.ofAction (k, ·) x) s (fun _ => 0) (· = k) :=
        Weave.pays_ofAction (hrest 0 x rfl s hs)
      have htail := ih (k + 1) fun i y hy => by
        rw [Nat.add_assoc, Nat.add_comm 1]
        exact hrest (i + 1) y hy
      refine (hx.both hs htail fun i hi hi' => ?_).congr (fun i => ?_) fun _ _ => rfl
      · omega
      · rw [List.length_cons]
        omega
  intro s hs
  refine (hfold actions 0 (fun i x hx => ?_) s hs).congr (fun i => by omega) fun _ _ => rfl
  rw [Nat.zero_add]
  exact h i x hx

/-- Together, actions spend what each of them does. -/
theorem CostsFrom.together (size : Nat) {β : Type} {f : β → Action σ α} {bs : List β}
    (h : ∀ i b, bs[i]? = some b → CostsFrom I meter (Q i) (f b) 0) :
    CostsFrom I meter (EachCosts Q bs.length) (together size (bs.map f)) 0 := by
  have hweave : (weave (bs.map f)).PaysFrom I meter Q (fun _ => 0) (· < bs.length) := by
    rw [← List.length_map f]
    refine pays_weave fun i x hx => ?_
    rw [List.getElem?_map, Option.map_eq_some_iff] at hx
    obtain ⟨b, hb, rfl⟩ := hx
    exact h i b hb
  intro s hs
  let waiting (l : List (Action σ α)) : Outcomes α := l.map fun _ => none
  have hsettle : Costs I meter (EachCosts Q (waiting (bs.map f)).length)
      (settle (few < size) (waiting (bs.map f)) (weave (bs.map f))) s
      (total (fun _ => 0) (waiting (bs.map f)).length) := by
    refine costs_settle _ (hweave s hs) ⟨fun i => ?_, fun i a hi => ?_⟩
    · rw [List.getElem?_eq_some_iff]
      simp [waiting]
    · obtain ⟨_, -, hnone⟩ := List.mem_map.1 (List.mem_of_getElem? hi)
      cases hnone
  rwa [total_zero, List.length_map, List.length_map] at hsettle

end Action
end Verdict
