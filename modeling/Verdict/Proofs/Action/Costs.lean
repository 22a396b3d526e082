import Verdict.Action.Pair
import Verdict.Proofs.Action.Ensures

/-!
# What an action costs

A meter shows in the state what has been spent. `Costs I meter Q` holds of an action that ends with
a result and an amount of its own in `Q`, or with a fault, though others spend as they like within
`I` while it waits. So it can be added up for actions that take turns.
-/
namespace Verdict.Action
variable {σ τ α β γ : Type}

/-- From the state, after it has spent some amount, the action ends with a result and with an amount
in `Q`, or with a fault. -/
def Costs (I : σ → Prop) (meter : σ → Nat) (Q : α → Nat → Prop) : Action σ α → σ → Nat → Prop
  | done r, _, spent => ∀ a, r = .ok a → Q a spent
  | read next, s, spent => Costs I meter Q (next s) s spent
  | write s' next, s, spent =>
    I s' ∧ ∃ d, meter s' = meter s + d ∧ Costs I meter Q next s' (spent + d)
  | wait _ next, _, spent => ∀ s, I s → Costs I meter Q next s spent

/-- The same from any state within `I`. -/
def CostsFrom (I : σ → Prop) (meter : σ → Nat) (Q : α → Nat → Prop) (x : Action σ α)
    (spent : Nat) : Prop :=
  ∀ s, I s → Costs I meter Q x s spent

variable {I : σ → Prop} {meter : σ → Nat} {Q Q' : α → Nat → Prop} {R : β → Nat → Prop}
variable {x : Action σ α} {s : σ} {spent : Nat}

theorem Costs.mono (h : Costs I meter Q x s spent) (hQ : ∀ a d, Q a d → Q' a d) :
    Costs I meter Q' x s spent := by
  induction x generalizing s spent with
  | done r => exact fun a ha => hQ a spent (h a ha)
  | read next ih => exact ih s h
  | write s' next ih =>
    obtain ⟨hs', d, hd, hnext⟩ := h
    exact ⟨hs', d, hd, ih hnext⟩
  | wait ready next ih => exact fun s hs => ih (h s hs)

theorem Costs.bind {f : α → Action σ β} (h : Costs I meter Q x s spent) (hs : I s)
    (hf : ∀ a d, Q a d → CostsFrom I meter R (f a) d) : Costs I meter R (x >>= f) s spent := by
  induction x generalizing s spent with
  | done r =>
    cases r with
    | ok a => exact hf a spent (h a rfl) s hs
    | error e => exact nofun
  | read next ih => exact ih s h hs
  | write s' next ih =>
    obtain ⟨hs', d, hd, hnext⟩ := h
    exact ⟨hs', d, hd, ih hnext hs'⟩
  | wait ready next ih => exact fun s hs => ih (h s hs) hs

/-- What was spent before is added to what the action spends. -/
theorem Costs.after (h : Costs I meter Q x s spent) (before : Nat) :
    Costs I meter (fun a d => ∃ d', d = before + d' ∧ Q a d') x s (before + spent) := by
  induction x generalizing s spent with
  | done r => exact fun a ha => ⟨spent, rfl, h a ha⟩
  | read next ih => exact ih s h
  | write s' next ih =>
    obtain ⟨hs', d, hd, hnext⟩ := h
    refine ⟨hs', d, hd, ?_⟩
    rw [Nat.add_assoc]
    exact ih hnext
  | wait ready next ih => exact fun s hs => ih (h s hs)

theorem Costs.onPart {part : τ → σ} {replace : σ → τ → τ} {J : τ → Prop} {t : τ}
    (h : Costs I meter Q x (part t) spent) (ht : J t) (hpart : ∀ t, J t → I (part t))
    (hreplace : ∀ s t, J t → I s → J (replace s t))
    (hget : ∀ s t, part (replace s t) = s) :
    Costs J (fun t => meter (part t)) Q (x.onPart part replace) t spent := by
  induction x generalizing t spent with
  | done r => exact h
  | read next ih => exact ih (part t) h ht
  | write s' next ih =>
    obtain ⟨hs', d, hd, hnext⟩ := h
    refine ⟨hreplace s' t ht hs', d, ?_, ?_⟩
    · simpa only [hget] using hd
    · exact ih (by rwa [hget]) (hreplace s' t ht hs')
  | wait ready next ih => exact fun t ht => ih (h (part t) (hpart t ht)) ht

/-- What an action ensures also holds of it as it is charged. -/
theorem Costs.and {J : σ → Prop} {P : α → Prop} {E : Fault → Prop}
    (h : Costs I meter Q x s spent) (hx : Ensures J P E x) (hs : I s) (hJ : ∀ s, I s → J s) :
    Costs I meter (fun a d => Q a d ∧ P a) x s spent := by
  induction x generalizing s spent with
  | done r => exact fun a ha => ⟨h a ha, Meets.of_eq_ok hx ha⟩
  | read next ih => exact ih s h (hx s (hJ s hs)) hs
  | write s' next ih =>
    obtain ⟨hs', d, hd, hnext⟩ := h
    exact ⟨hs', d, hd, ih hnext hx.2 hs'⟩
  | wait ready next ih => exact fun s hs => ih (h s hs) hx hs

/-- A meter that stands still shows no cost. -/
theorem Ensures.costs_still {P : α → Prop} {E : Fault → Prop} (h : Ensures I P E x) (hs : I s) :
    Costs I (fun _ => 0) (fun _ d => d = 0) x s 0 := by
  induction x generalizing s with
  | done r => exact fun _ _ => rfl
  | read next ih => exact ih s (h s hs) hs
  | write s' next ih => exact ⟨h.1, 0, rfl, ih h.2 h.1⟩
  | wait ready next ih => exact fun s hs => ih h hs

/-- Nor does a meter on another part of the state than the one that the action works on. -/
theorem Ensures.costs_onPart {P : α → Prop} {E : Fault → Prop} {part : τ → σ}
    {replace : σ → τ → τ} {meter : τ → Nat} {t : τ} (h : Ensures I P E x) (ht : I (part t))
    (hget : ∀ s t, part (replace s t) = s) (hmeter : ∀ s t, meter (replace s t) = meter t) :
    Costs (fun t => I (part t)) meter (fun _ d => d = spent) (x.onPart part replace) t spent := by
  induction x generalizing t with
  | done r => exact fun _ _ => rfl
  | read next ih => exact ih (part t) (h (part t) ht) ht
  | write s' next ih =>
    have hs' : I (part (replace s' t)) := by
      rw [hget]
      exact h.1
    exact ⟨hs', 0, hmeter s' t, ih h.2 hs'⟩
  | wait ready next ih => exact fun t ht => ih h ht

/-- Carried out alone, the action moves the meter by what it spends. -/
theorem Costs.run {s' : σ} {a : α} (h : Costs I meter Q x s spent) (hs : I s)
    (hrun : x.run s = (.ok a, s')) :
    ∃ total, Q a total ∧ meter s' + spent = meter s + total := by
  induction x generalizing s spent with
  | done r =>
    cases hrun
    exact ⟨spent, h a rfl, rfl⟩
  | read next ih => exact ih s h hs hrun
  | write t next ih =>
    obtain ⟨ht, d, hd, hnext⟩ := h
    obtain ⟨total, hQ, htotal⟩ := ih hnext ht hrun
    exact ⟨total, hQ, by omega⟩
  | wait ready next ih => exact ih (h s hs) hs hrun

theorem Costs.within_run (h : Costs I meter Q x s spent) (hs : I s) : I (x.run s).2 := by
  induction x generalizing s spent with
  | done r => exact hs
  | read next ih => exact ih s h hs
  | write t next ih =>
    obtain ⟨ht, d, -, hnext⟩ := h
    exact ih hnext ht
  | wait ready next ih => exact ih (h s hs) hs

theorem CostsFrom.mono (h : CostsFrom I meter Q x spent) (hQ : ∀ a d, Q a d → Q' a d) :
    CostsFrom I meter Q' x spent :=
  fun s hs => (h s hs).mono hQ

theorem CostsFrom.bind {f : α → Action σ β} (h : CostsFrom I meter Q x spent)
    (hf : ∀ a d, Q a d → CostsFrom I meter R (f a) d) : CostsFrom I meter R (x >>= f) spent :=
  fun s hs => (h s hs).bind hs hf

theorem CostsFrom.after (h : CostsFrom I meter Q x 0) (before : Nat) :
    CostsFrom I meter (fun a d => ∃ d', d = before + d' ∧ Q a d') x before :=
  fun s hs => (h s hs).after before

theorem costsFrom_pure {a : α} (h : Q a spent) :
    CostsFrom I meter Q (pure a : Action σ α) spent := by
  rintro s - a' ⟨⟩
  exact h

theorem costsFrom_fail (e : Fault) : CostsFrom I meter Q (fail e : Action σ α) spent :=
  fun _ _ => nofun

theorem CostsFrom.state {f : σ → Action σ α} (h : ∀ s, I s → CostsFrom I meter Q (f s) spent) :
    CostsFrom I meter Q (Action.state >>= f) spent :=
  fun s hs => h s hs s hs

theorem CostsFrom.turn (h : CostsFrom I meter Q x spent) (ready : σ → Bool) :
    CostsFrom I meter Q (Action.turn ready x) spent := by
  intro s hs
  change Costs I meter Q (if ready s then x else wait ready x) s spent
  split
  · exact h s hs
  · exact h

/-- What is left of the second of two actions, which has spent some amount, costs what the action
does. -/
def PartnerCosts (I : σ → Prop) (meter : σ → Nat) (R : β → Nat → Prop) :
    Partner σ β → Nat → Prop
  | .due action, spent => CostsFrom I meter R action spent
  | .resting _ next, spent => CostsFrom I meter R next spent

/-- The first of two actions has spent `before` while the second has its turn. -/
theorem Costs.meanwhile {S : γ → Nat → Prop} {ready : σ → Bool} {alone : β → Action σ γ}
    {resume : Partner σ β → Action σ γ} {y : Action σ β} {before : Nat}
    (h : Costs I meter R y s spent) (hs : I s)
    (halone : ∀ b d, R b d → CostsFrom I meter S (alone b) (before + d))
    (hresume : ∀ p d, PartnerCosts I meter R p d → CostsFrom I meter S (resume p) (before + d))
    (isDue : Bool) : Costs I meter S (meanwhile ready alone resume isDue y) s (before + spent) := by
  induction y generalizing s spent isDue with
  | done r =>
    cases r with
    | error e => cases isDue <;> exact nofun
    | ok b =>
      cases isDue with
      | true => exact (halone b spent (h b rfl)).turn ready s hs
      | false => exact halone b spent (h b rfl)
  | read next ih => cases isDue <;> exact ih s h hs _
  | write s' next ih =>
    obtain ⟨hs', d, hd, hnext⟩ := h
    have hrest := ih hnext hs' isDue
    rw [← Nat.add_assoc] at hrest
    cases isDue <;> exact ⟨hs', d, hd, hrest⟩
  | wait ready' next ih =>
    have hresting := hresume (.resting ready' next) spent h
    have hdue := hresume (.due (Action.turn ready' next)) spent (CostsFrom.turn h ready')
    cases isDue with
    | true =>
      change Costs I meter S (if ready s then resume (.resting ready' next) else _) s _
      split
      · exact hresting s hs
      · intro s' hs'
        change Costs I meter S
          (if ready s' then resume (.due (Action.turn ready' next)) else _) s' _
        split
        · exact hdue s' hs'
        · exact ih (h s' hs') hs' false
    | false =>
      intro s' hs'
      change Costs I meter S (if ready' s' then _ else resume (.resting ready' next)) s' _
      split
      · exact ih (h s' hs') hs' true
      · exact hresting s' hs'

/-- The amounts of two actions added up. -/
def BothCost (Q : α → Nat → Prop) (R : β → Nat → Prop) (r : α × β) (total : Nat) : Prop :=
  ∃ d d', total = d + d' ∧ Q r.1 d ∧ R r.2 d'

theorem CostsFrom.first_ended {y : Action σ β} {a : α} {d : Nat} (ha : Q a d)
    (h : CostsFrom I meter R y spent) :
    CostsFrom I meter (BothCost Q R) (y.andThen (onResult fun b => done (.ok (a, b))))
      (d + spent) := by
  intro s hs
  refine ((h s hs).after d).bind hs ?_
  rintro b _ ⟨d', rfl, hb⟩
  exact costsFrom_pure ⟨d, d', rfl, ha, hb⟩

theorem CostsFrom.second_ended {b : β} {d : Nat} (hb : R b d)
    (h : CostsFrom I meter Q x spent) :
    CostsFrom I meter (BothCost Q R) (x.andThen (onResult fun a => done (.ok (a, b))))
      (spent + d) := by
  intro s hs
  rw [Nat.add_comm]
  refine ((h s hs).after d).bind hs ?_
  rintro a _ ⟨d', rfl, ha⟩
  exact costsFrom_pure ⟨d', d, Nat.add_comm .., ha, hb⟩

theorem Costs.pairWith {p : Partner σ β} {spent' : Nat} (hx : Costs I meter Q x s spent)
    (hs : I s) (hp : PartnerCosts I meter R p spent') :
    Costs I meter (BothCost Q R) (pairWith x p) s (spent + spent') := by
  induction x generalizing s spent p spent' with
  | done r =>
    cases r with
    | error e => exact nofun
    | ok a =>
      have ha := hx a rfl
      cases p with
      | due b => exact CostsFrom.first_ended ha hp s hs
      | resting ready next => exact CostsFrom.first_ended ha hp
  | read next ih => exact ih s hx hs hp
  | write s' next ih =>
    obtain ⟨hs', d, hd, hnext⟩ := hx
    refine ⟨hs', d, hd, ?_⟩
    rw [Nat.add_right_comm]
    exact ih hnext hs' hp
  | wait ready next ih =>
    have halone (b : β) (d : Nat) (hb : R b d) := CostsFrom.second_ended (Q := Q) hb hx
    have hresume (p : Partner σ β) (d : Nat) (hp : PartnerCosts I meter R p d) :
        CostsFrom I meter (BothCost Q R) (Action.pairWith next p) (spent + d) :=
      fun s hs => ih (hx s hs) hs hp
    cases p with
    | due b => exact Costs.meanwhile (hp s hs) hs halone hresume false
    | resting ready' next' =>
      intro s hs
      change Costs I meter _ (if ready s then _ else _) s _
      split
      · exact hresume (.due (Action.turn ready' next')) spent' (CostsFrom.turn hp ready') s hs
      · exact Costs.meanwhile (hp s hs) hs halone hresume false

/-- Side by side, two actions spend what each of them does. -/
theorem CostsFrom.pair {y : Action σ β} (hx : CostsFrom I meter Q x 0)
    (hy : CostsFrom I meter R y 0) : CostsFrom I meter (BothCost Q R) (Action.pair x y) 0 :=
  fun s hs => (hx s hs).pairWith (p := .due y) hs hy

end Verdict.Action
