import Mathlib.Data.List.Forall2
import Verdict.Proofs.Action.Together

/-!
# Actions that follow others

An action follows another if it does to the image of the state what the other does to the state,
waits when it waits, and ends as it ends. The other may look at its state, and take idle steps that
the image does not show; and it may be lost: bound to end with a fault of some kind, while the one
that follows does something else. Actions side by side follow others side by side, whatever turns
they take.
-/
namespace Verdict
open Verdict.Action

/-- How the states of two actions correspond. -/
structure Likeness (σ τ : Type) where
  within : σ → Prop
  image : σ → τ
  /-- The faults that the first may end with alone. -/
  lost : Fault → Prop
  /-- What the first may do to its state alone. -/
  idle : (σ → σ) → Prop
  within_idle : ∀ {g s}, idle g → within s → within (g s)
  image_idle : ∀ {g s}, idle g → within s → image (g s) = image s

variable {σ τ α β γ δ : Type} {L : Likeness σ τ}

/-- The same fault, or results that `R` relates. -/
inductive Alike (R : α → β → Prop) : Except Fault α → Except Fault β → Prop
  | ok {a : α} {b : β} (h : R a b) : Alike R (.ok a) (.ok b)
  | error (e : Fault) : Alike R (.error e) (.error e)

theorem Alike.mono {R R' : α → β → Prop} {r : Except Fault α} {r' : Except Fault β}
    (h : Alike R r r') (hR : ∀ a b, R a b → R' a b) : Alike R' r r' := by
  cases h with
  | ok h => exact .ok (hR _ _ h)
  | error e => exact .error e

theorem Alike.refl (r : Except Fault α) : Alike Eq r r := by
  cases r with
  | ok a => exact .ok rfl
  | error e => exact .error e

theorem Alike.eq {r r' : Except Fault α} (h : Alike Eq r r') : r = r' := by
  cases h with
  | ok h => rw [h]
  | error e => rfl

/-- The same, but these faults may lose the first. -/
def Likeness.losing (L : Likeness σ τ) (lost : Fault → Prop) : Likeness σ τ := { L with lost }

/-- A kind of faults is all faults, or there is none of it. -/
def Likeness.AllOrNone (L : Likeness σ τ) : Prop := ∀ e e', L.lost e → L.lost e'

namespace Action

/-- The second action follows the first, up to `R` between their results. -/
inductive Follows (L : Likeness σ τ) (R : α → β → Prop) : Action σ α → Action τ β → Prop
  | done {r : Except Fault α} {r' : Except Fault β} (h : Alike R r r') :
      Follows L R (.done r) (.done r')
  | read {next : σ → Action σ α} {next' : τ → Action τ β}
      (h : ∀ s, L.within s → Follows L R (next s) (next' (L.image s))) :
      Follows L R (.read next) (.read next')
  | write {s : σ} {t : τ} {next : Action σ α} {next' : Action τ β} (hs : L.within s)
      (ht : L.image s = t) (h : Follows L R next next') :
      Follows L R (.write s next) (.write t next')
  | wait {ready : σ → Bool} {ready' : τ → Bool} {next : Action σ α} {next' : Action τ β}
      (hready : ∀ s, L.within s → ready s = ready' (L.image s)) (h : Follows L R next next') :
      Follows L R (.wait ready next) (.wait ready' next')
  | look {next : σ → Action σ α} {y : Action τ β}
      (h : ∀ s, L.within s → Follows L R (next s) y) : Follows L R (.read next) y
  | idle {g : σ → σ} {next : Action σ α} {y : Action τ β} (hg : L.idle g)
      (h : Follows L R next y) : Follows L R (.read fun s => .write (g s) next) y
  | lost {e : Fault} {x : Action σ α} {y : Action τ β} (he : L.lost e)
      (h : Ensures L.within (fun _ => False) L.lost x) : Follows L R x y

variable {R R' : α → β → Prop} {S : γ → δ → Prop} {x : Action σ α} {y : Action τ β}

/-- Less may be asked of the results, and more faults may lose the first. -/
theorem Follows.weaken {lost : Fault → Prop} (h : Follows L R x y) (hR : ∀ a b, R a b → R' a b)
    (hlost : ∀ e, L.lost e → lost e) : Follows (L.losing lost) R' x y := by
  induction h with
  | done h => exact .done (h.mono hR)
  | read _ ih => exact .read ih
  | write hs ht _ ih => exact .write hs ht ih
  | wait hready _ ih => exact .wait hready ih
  | look _ ih => exact .look ih
  | idle hg _ ih => exact .idle hg ih
  | lost he h => exact .lost (hlost _ he) (h.mono (fun _ h => h) hlost)

theorem Follows.mono (h : Follows L R x y) (hR : ∀ a b, R a b → R' a b) : Follows L R' x y :=
  h.weaken hR fun _ he => he

theorem Follows.pure {a : α} {b : β} (h : R a b) :
    Follows L R (Pure.pure a : Action σ α) (Pure.pure b : Action τ β) := .done (.ok h)

theorem Follows.fail (e : Fault) :
    Follows L R (Action.fail e : Action σ α) (Action.fail e : Action τ β) := .done (.error e)

theorem Follows.state :
    Follows L (fun s t => L.within s ∧ L.image s = t) (Action.state : Action σ σ)
      (Action.state : Action τ τ) :=
  .read fun _ hs => .done (.ok ⟨hs, rfl⟩)

theorem Follows.modify {f : σ → σ} {f' : τ → τ} (hf : ∀ s, L.within s → L.within (f s))
    (himage : ∀ s, L.within s → L.image (f s) = f' (L.image s)) :
    Follows L (fun _ _ => True) (Action.modify f) (Action.modify f') :=
  .read fun s hs => .write (hf s hs) (himage s hs) (.done (.ok trivial))

theorem Follows.ite {c c' : Prop} [Decidable c] [Decidable c'] {x' : Action σ α}
    {y' : Action τ β} (hc : c ↔ c') (h : Follows L R x y) (h' : Follows L R x' y') :
    Follows L R (if c then x else x') (if c' then y else y') := by
  by_cases hcase : c
  · rw [if_pos hcase, if_pos (hc.1 hcase)]
    exact h
  · rw [if_neg hcase, if_neg fun h => hcase (hc.2 h)]
    exact h'

/-- Goes on after both; after a fault that loses the first, what comes next is lost as well. -/
theorem Follows.andThen {k : Except Fault α → Action σ γ} {k' : Except Fault β → Action τ δ}
    (h : Follows L R x y) (hk : ∀ r r', Alike R r r' → Follows L S (k r) (k' r'))
    (hlost : ∀ e, L.lost e → Ensures L.within (fun _ => False) L.lost (k (.error e))) :
    Follows L S (x.andThen k) (y.andThen k') := by
  induction h with
  | done h => exact hk _ _ h
  | read _ ih => exact .read ih
  | write hs ht _ ih => exact .write hs ht ih
  | wait hready _ ih => exact .wait hready ih
  | look _ ih => exact .look ih
  | idle hg _ ih => exact .idle hg ih
  | lost he h =>
    refine .lost he (h.andThen fun r hr => ?_)
    cases r with
    | ok a => exact hr.elim
    | error e => exact hlost e hr

theorem Follows.bind {f : α → Action σ γ} {f' : β → Action τ δ} (h : Follows L R x y)
    (hf : ∀ a b, R a b → Follows L S (f a) (f' b)) : Follows L S (x >>= f) (y >>= f') := by
  refine h.andThen (fun r r' hr => ?_) fun e he => he
  cases hr with
  | ok hr => exact hf _ _ hr
  | error e => exact .done (.error e)

/-- Any fault may lose the first, so there is nothing more to say of it than what it keeps. -/
theorem Follows.ensures (h : Follows L R x y) (hlost : ∀ e, L.lost e) :
    Ensures L.within (fun _ => True) L.lost x := by
  induction h with
  | @done r r' h =>
    cases r with
    | ok a => exact True.intro
    | error e => exact hlost e
  | read _ ih => exact ih
  | write hs _ _ ih => exact ⟨hs, ih⟩
  | wait _ _ ih => exact ih
  | look _ ih => exact ih
  | idle hg _ ih => exact fun s hs => ⟨L.within_idle hg hs, ih⟩
  | lost _ h => exact h.mono (fun _ h => h.elim) fun _ h => h

theorem Follows.turn {ready : σ → Bool} {ready' : τ → Bool} (h : Follows L R x y)
    (hready : ∀ s, L.within s → ready s = ready' (L.image s)) :
    Follows L R (turn ready x) (turn ready' y) :=
  .read fun s hs => .ite (by rw [hready s hs]) h (.wait hready h)

/-- What is left of the second of two actions is at the same place and follows. -/
inductive PartnerFollows (L : Likeness σ τ) (S : γ → δ → Prop) : Partner σ γ → Partner τ δ → Prop
  | due {x : Action σ γ} {y : Action τ δ} (h : Follows L S x y) :
      PartnerFollows L S (.due x) (.due y)
  | resting {ready : σ → Bool} {ready' : τ → Bool} {x : Action σ γ} {y : Action τ δ}
      (hready : ∀ s, L.within s → ready s = ready' (L.image s)) (h : Follows L S x y) :
      PartnerFollows L S (.resting ready x) (.resting ready' y)

theorem PartnerFollows.ensures {q : Partner σ γ} {q' : Partner τ δ} (h : PartnerFollows L S q q')
    (hlost : ∀ e, L.lost e) : PartnerEnsures L.within (fun _ => True) L.lost q := by
  cases h with
  | due h => exact h.ensures hlost
  | resting _ h => exact h.ensures hlost

theorem Follows.meanwhile {ready : σ → Bool} {ready' : τ → Bool} {alone : γ → Action σ α}
    {alone' : δ → Action τ β} {resume : Partner σ γ → Action σ α}
    {resume' : Partner τ δ → Action τ β} {z : Action σ γ} {z' : Action τ δ}
    (h : Follows L S z z') (hready : ∀ s, L.within s → ready s = ready' (L.image s))
    (halone : ∀ c d, S c d → Follows L R (alone c) (alone' d))
    (hresume : ∀ q q', PartnerFollows L S q q' → Follows L R (resume q) (resume' q'))
    (hlost : (∃ e, L.lost e) → ∀ q, PartnerEnsures L.within (fun _ => False) L.lost q →
      Ensures L.within (fun _ => False) L.lost (resume q))
    (isDue : Bool) :
    Follows L R (meanwhile ready alone resume isDue z)
      (meanwhile ready' alone' resume' isDue z') := by
  induction h generalizing isDue with
  | done h =>
    cases h with
    | ok h =>
      cases isDue with
      | true => exact (halone _ _ h).turn hready
      | false => exact .wait hready (halone _ _ h)
    | error e => cases isDue <;> exact .done (.error e)
  | read _ ih => cases isDue <;> exact .read fun s hs => ih s hs _
  | write hs ht _ ih => cases isDue <;> exact .write hs ht (ih _)
  | @wait ready₂ ready₂' next next' hready₂ h ih =>
    have hresting := hresume _ _ (.resting hready₂ h)
    have heither (s : σ) (hs : L.within s) :
        (ready s || ready₂ s) = (ready' (L.image s) || ready₂' (L.image s)) := by
      rw [hready s hs, hready₂ s hs]
    cases isDue with
    | true =>
      refine .read fun s hs => .ite (by rw [hready s hs]) hresting (.wait heither ?_)
      refine .read fun s hs => .ite (by rw [hready s hs]) ?_ (ih false)
      exact hresume _ _ (.due (h.turn hready₂))
    | false =>
      exact .wait heither (.read fun s hs => .ite (by rw [hready₂ s hs]) (ih true) hresting)
  | look _ ih => cases isDue <;> exact .look fun s hs => ih s hs _
  | idle hg _ ih => cases isDue <;> exact .idle hg (ih _)
  | lost he h =>
    refine .lost he (h.meanwhile (Q := fun _ => False) (fun _ h => h.elim) (hlost ⟨_, he⟩) isDue)

theorem Follows.pairWith {q : Partner σ γ} {q' : Partner τ δ} (hall : L.AllOrNone)
    (h : Follows L R x y) (hq : PartnerFollows L S q q') :
    Follows L (fun r r' => R r.1 r'.1 ∧ S r.2 r'.2) (pairWith x q) (pairWith y q') := by
  have hends {c : α} {d : β} (hcd : R c d) {z : Action σ γ} {z' : Action τ δ}
      (hz : Follows L S z z') :
      Follows L (fun r r' => R r.1 r'.1 ∧ S r.2 r'.2)
        (z.andThen (onResult fun b => Action.done (.ok (c, b))))
        (z'.andThen (onResult fun b => Action.done (.ok (d, b)))) :=
    Follows.bind hz fun b b' hb => .done (.ok ⟨hcd, hb⟩)
  induction h generalizing q q' with
  | done h =>
    cases h with
    | ok h =>
      cases hq with
      | due hz => exact hends h hz
      | resting hready hz => exact .wait hready (hends h hz)
    | error e => exact .done (.error e)
  | read _ ih => exact .read fun s hs => ih s hs hq
  | write hs ht _ ih => exact .write hs ht (ih hq)
  | @wait ready ready' next next' hready h ih =>
    have halone (b : γ) (b' : δ) (hb : S b b') :
        Follows L (fun r r' => R r.1 r'.1 ∧ S r.2 r'.2)
          (next.andThen (onResult fun a => Action.done (.ok (a, b))))
          (next'.andThen (onResult fun a => Action.done (.ok (a, b')))) :=
      Follows.bind h fun a a' ha => .done (.ok ⟨ha, hb⟩)
    have hlost (hsome : ∃ e, L.lost e) (q : Partner σ γ)
        (hq : PartnerEnsures L.within (fun _ => False) L.lost q) :
        Ensures L.within (fun _ => False) L.lost (Action.pairWith next q) := by
      obtain ⟨e, he⟩ := hsome
      exact ((h.ensures fun e' => hall e e' he).pairWith hq).mono (fun _ h => h.2) fun _ h => h
    cases hq with
    | due hz => exact hz.meanwhile hready halone (fun _ _ hq => ih hq) hlost false
    | @resting ready₂ ready₂' z z' hready₂ hz =>
      have heither (s : σ) (hs : L.within s) :
          (ready s || ready₂ s) = (ready' (L.image s) || ready₂' (L.image s)) := by
        rw [hready s hs, hready₂ s hs]
      refine .wait heither (.read fun s hs => .ite (by rw [hready s hs]) ?_ ?_)
      · exact ih (.due (hz.turn hready₂))
      · exact hz.meanwhile hready halone (fun _ _ hq => ih hq) hlost false
  | look _ ih => exact .look fun s hs => ih s hs hq
  | idle hg _ ih => exact .idle hg (ih hq)
  | lost he h =>
    refine .lost he ((h.pairWith (hq.ensures fun e' => hall _ e' he)).mono ?_ fun _ h => h)
    exact fun _ h => h.1

/-- Side by side, two actions follow two others. -/
theorem Follows.pair {z : Action σ γ} {z' : Action τ δ} (hall : L.AllOrNone)
    (h : Follows L R x y) (h' : Follows L S z z') :
    Follows L (fun r r' => R r.1 r'.1 ∧ S r.2 r'.2) (pair x z) (pair y z') :=
  h.pairWith hall (.due h')

/-- Carried out alone, the action that follows ends with a result if the other does, and as the
other ends if no fault loses that. -/
theorem Follows.run {s : σ} (h : Follows L R x y) (hs : L.within s) :
    (∃ e, L.lost e ∧ (x.run s).1 = .error e) ∨
      (Alike R (x.run s).1 (y.run (L.image s)).1 ∧ L.within (x.run s).2 ∧
        (y.run (L.image s)).2 = L.image (x.run s).2) := by
  induction h generalizing s with
  | done h => exact .inr ⟨h, hs, rfl⟩
  | read _ ih => exact ih s hs hs
  | write hs' ht _ ih =>
    subst ht
    exact ih hs'
  | wait _ _ ih => exact ih hs
  | look _ ih => exact ih s hs hs
  | idle hg _ ih =>
    rw [← L.image_idle hg hs]
    exact ih (L.within_idle hg hs)
  | @lost _ x y _ h =>
    have hmeets := (h.run hs).1
    cases hx : (x.run s).1 with
    | ok a => exact (hmeets.of_eq_ok hx).elim
    | error e => exact .inl ⟨e, hmeets.of_eq_error hx, rfl⟩

/-- Where no fault loses the one that is followed, the two end alike. -/
theorem Follows.run_eq {y : Action τ α} {s : σ} (h : Follows L Eq x y) (hs : L.within s)
    (hlost : ∀ e, ¬ L.lost e) : y.run (L.image s) = ((x.run s).1, L.image (x.run s).2) := by
  obtain ⟨e, he, -⟩ | ⟨hends, -, hstate⟩ := h.run hs
  · exact absurd he (hlost e)
  · exact Prod.ext hends.eq.symm hstate

end Action
end Verdict
