import Verdict.Action.Pair

/-!
# What an action ensures

`Ensures I P E` holds of an action that keeps the state within `I` and ends with a result in `P`
or a fault in `E`, though others change the state within `I` whenever they like. So it also
holds of the action among others that ensure `I`, whatever turns they take.
-/
namespace Verdict.Action
variable {σ τ α β γ : Type}

/-- The outcome is a result in `P` or a fault in `E`. -/
def Meets (P : α → Prop) (E : Fault → Prop) : Except Fault α → Prop
  | .ok a => P a
  | .error e => E e

def Ensures (I : σ → Prop) (P : α → Prop) (E : Fault → Prop) : Action σ α → Prop
  | done r => Meets P E r
  | read next => ∀ s, I s → Ensures I P E (next s)
  | write s next => I s ∧ Ensures I P E next
  | wait _ next => Ensures I P E next

variable {I : σ → Prop} {P P' : α → Prop} {Q : β → Prop} {E E' : Fault → Prop}
variable {x : Action σ α}

theorem Meets.mono {r : Except Fault α} (h : Meets P E r) (hP : ∀ a, P a → P' a)
    (hE : ∀ e, E e → E' e) : Meets P' E' r := by
  cases r with
  | ok a => exact hP a h
  | error e => exact hE e h

theorem Meets.of_eq_ok {r : Except Fault α} {a : α} (h : Meets P E r) (hr : r = .ok a) : P a := by
  subst hr
  exact h

theorem Meets.of_eq_error {r : Except Fault α} {e : Fault} (h : Meets P E r) (hr : r = .error e) :
    E e := by
  subst hr
  exact h

theorem Ensures.mono (h : Ensures I P E x) (hP : ∀ a, P a → P' a) (hE : ∀ e, E e → E' e) :
    Ensures I P' E' x := by
  induction x with
  | done r => exact Meets.mono h hP hE
  | read next ih => exact fun s hs => ih s (h s hs)
  | write s next ih => exact ⟨h.1, ih h.2⟩
  | wait ready next ih => exact ih h

theorem meets_true (r : Except Fault α) : Meets (fun _ => True) (fun _ => True) r := by
  cases r <;> exact True.intro

/-- Where nothing is asked of the state, nothing is asked of the action. -/
theorem ensures_true (x : Action σ α) :
    Ensures (fun _ => True) (fun _ => True) (fun _ => True) x := by
  induction x with
  | done r => exact meets_true r
  | read next ih => exact fun s _ => ih s
  | write s next ih => exact ⟨True.intro, ih⟩
  | wait ready next ih => exact ih

theorem Ensures.andThen {k : Except Fault α → Action σ β} (h : Ensures I P E x)
    (hk : ∀ r, Meets P E r → Ensures I Q E' (k r)) : Ensures I Q E' (x.andThen k) := by
  induction x with
  | done r => exact hk r h
  | read next ih => exact fun s hs => ih s (h s hs)
  | write s next ih => exact ⟨h.1, ih h.2⟩
  | wait ready next ih => exact ih h

theorem ensures_onResult {f : α → Action σ β} (hf : ∀ a, P a → Ensures I Q E (f a))
    (r : Except Fault α) (h : Meets P E r) : Ensures I Q E (onResult f r) := by
  cases r with
  | ok a => exact hf a h
  | error e => exact h

theorem Ensures.bind {f : α → Action σ β} (h : Ensures I P E x)
    (hf : ∀ a, P a → Ensures I Q E (f a)) : Ensures I Q E (x >>= f) :=
  h.andThen (ensures_onResult hf)

theorem Ensures.pure {a : α} (h : P a) : Ensures I P E (Pure.pure a : Action σ α) := h

theorem Ensures.state : Ensures I I E (Action.state : Action σ σ) := fun _ hs => hs

theorem Ensures.modify {f : σ → σ} (hf : ∀ s, I s → I (f s)) :
    Ensures I (fun _ => True) E (Action.modify f) := fun s hs => ⟨hf s hs, trivial⟩

/-- Carried out alone, the action does what it ensures. -/
theorem Ensures.run {s : σ} (h : Ensures I P E x) (hs : I s) :
    Meets P E (x.run s).1 ∧ I (x.run s).2 := by
  induction x generalizing s with
  | done r => exact ⟨h, hs⟩
  | read next ih => exact ih s (h s hs) hs
  | write s' next ih => exact ih h.2 h.1
  | wait ready next ih => exact ih h hs

theorem Ensures.onPart {part : τ → σ} {replace : σ → τ → τ} {J : τ → Prop}
    (hpart : ∀ t, J t → I (part t)) (hreplace : ∀ s t, J t → I s → J (replace s t))
    (h : Ensures I P E x) : Ensures J P E (x.onPart part replace) := by
  induction x with
  | done r => exact h
  | read next ih => exact fun t ht => ih (part t) (h _ (hpart t ht))
  | write s next ih => exact fun t ht => ⟨hreplace s t ht h.1, ih h.2⟩
  | wait ready next ih => exact ih h

theorem Ensures.ite {c : Prop} [Decidable c] {y : Action σ α} (hx : Ensures I P E x)
    (hy : Ensures I P E y) : Ensures I P E (if c then x else y) := by
  split
  · exact hx
  · exact hy

theorem Ensures.turn {ready : σ → Bool} (h : Ensures I P E x) : Ensures I P E (turn ready x) :=
  fun _ _ => Ensures.ite h h

/-- What is left of the second of two actions still ensures what the action did. -/
def PartnerEnsures (I : σ → Prop) (Q : β → Prop) (E : Fault → Prop) : Partner σ β → Prop
  | .due action => Ensures I Q E action
  | .resting _ next => Ensures I Q E next

theorem Ensures.meanwhile {R : γ → Prop} {ready : σ → Bool} {alone : β → Action σ γ}
    {resume : Partner σ β → Action σ γ} {y : Action σ β} (h : Ensures I Q E y)
    (halone : ∀ b, Q b → Ensures I R E (alone b))
    (hresume : ∀ p : Partner σ β, PartnerEnsures I Q E p → Ensures I R E (resume p))
    (isDue : Bool) : Ensures I R E (meanwhile ready alone resume isDue y) := by
  induction y generalizing isDue with
  | done r =>
    cases r with
    | error e => cases isDue <;> exact h
    | ok b =>
      cases isDue with
      | true => exact (halone b h).turn
      | false => exact halone b h
  | read next ih => cases isDue <;> exact fun s hs => ih s (h s hs) _
  | write s next ih => cases isDue <;> exact ⟨h.1, ih h.2 _⟩
  | wait ready' next ih =>
    have hresting := hresume (.resting ready' next) h
    cases isDue with
    | true =>
      intro s _
      exact Ensures.ite hresting fun _ _ =>
        Ensures.ite (hresume (.due (Action.turn ready' next)) (Ensures.turn h)) (ih h false)
    | false => exact fun _ _ => Ensures.ite (ih h true) hresting

theorem Ensures.pairWith {p : Partner σ β} (hx : Ensures I P E x) (hp : PartnerEnsures I Q E p) :
    Ensures I (fun r => P r.1 ∧ Q r.2) E (pairWith x p) := by
  induction x generalizing p with
  | done r =>
    cases r with
    | error e => exact hx
    | ok a =>
      have hb (y : Action σ β) (hy : Ensures I Q E y) : Ensures I (fun r : α × β => P r.1 ∧ Q r.2) E
          (y.andThen (onResult fun b => done (.ok (a, b)))) :=
        Ensures.bind hy fun b hb => Ensures.pure (P := fun r : α × β => P r.1 ∧ Q r.2) ⟨hx, hb⟩
      cases p with
      | due b => exact hb b hp
      | resting ready next => exact hb next hp
  | read next ih => exact fun s hs => ih s (hx s hs) hp
  | write s next ih => exact ⟨hx.1, ih hx.2 hp⟩
  | wait ready next ih =>
    have halone (b : β) (hb : Q b) : Ensures I (fun r : α × β => P r.1 ∧ Q r.2) E
        (next.andThen (onResult fun a => done (.ok (a, b)))) :=
      Ensures.bind hx fun a ha => Ensures.pure (P := fun r : α × β => P r.1 ∧ Q r.2) ⟨ha, hb⟩
    cases p with
    | due b => exact Ensures.meanwhile hp halone (fun p hp => ih hx hp) false
    | resting ready' next' =>
      intro s _
      exact Ensures.ite (ih (p := .due (Action.turn ready' next')) hx (Ensures.turn hp))
        (Ensures.meanwhile hp halone (fun p hp => ih hx hp) false)

/-- Side by side, two actions ensure what each of them does. -/
theorem Ensures.pair {y : Action σ β} (hx : Ensures I P E x) (hy : Ensures I Q E y) :
    Ensures I (fun r => P r.1 ∧ Q r.2) E (pair x y) :=
  hx.pairWith (p := .due y) hy

end Verdict.Action
