import Verdict.Action.Together
import Verdict.Proofs.Action.Ensures

/-!
# Actions that do not wait

An action that never waits keeps its turn until it ends. So of such actions side by side each ends
before the next one begins, and the first fault in their order is the fault of all.
-/
namespace Verdict.Action
variable {σ τ α β γ : Type}

/-- Carries out an action, unless it waits. -/
def atOnce : Action σ α → σ → Option (Except Fault α × σ)
  | done r, s => some (r, s)
  | read next, s => atOnce (next s) s
  | write s next, _ => atOnce next s
  | wait _ _, _ => none

variable {x : Action σ α} {s s' : σ} {r : Except Fault α}

theorem run_eq_of_atOnce (h : x.atOnce s = some (r, s')) : x.run s = (r, s') := by
  induction x generalizing s with
  | done r' => exact Option.some.inj h
  | read next ih => exact ih s h
  | write t next ih => exact ih h
  | wait ready next _ => cases h

theorem atOnce_andThen (h : x.atOnce s = some (r, s')) (k : Except Fault α → Action σ β) :
    (x.andThen k).atOnce s = (k r).atOnce s' := by
  induction x generalizing s with
  | done r' =>
    cases h
    rfl
  | read next ih => exact ih s h
  | write t next ih => exact ih h
  | wait ready next _ => cases h

/-- On a part of the state the action does what it does alone, and the rest stays as it is. -/
theorem atOnce_onPart {part : τ → σ} {replace : σ → τ → τ}
    (hpart : ∀ s t, part (replace s t) = s) (htwice : ∀ s s' t, replace s' (replace s t) =
      replace s' t) (hsame : ∀ t, replace (part t) t = t) {t : τ}
    (h : x.atOnce (part t) = some (r, s')) :
    (x.onPart part replace).atOnce t = some (r, replace s' t) := by
  induction x generalizing t with
  | done r' =>
    cases h
    rw [hsame]
    rfl
  | read next ih => exact ih (part t) h
  | write s next ih =>
    have hnext := ih (t := replace s t) ((hpart s t).symm ▸ h)
    rw [htwice] at hnext
    exact hnext
  | wait ready next _ => cases h

/-- The second of two actions begins when the first has ended. -/
theorem atOnce_pair (h : x.atOnce s = some (r, s')) (y : Action σ β) :
    (pair x y).atOnce s =
      (onResult (fun a => y.andThen (onResult fun b => done (.ok (a, b)))) r).atOnce s' := by
  unfold pair
  induction x generalizing s with
  | done r' =>
    cases h
    cases r <;> rfl
  | read next ih => exact ih s h
  | write t next ih => exact ih h
  | wait ready next _ => cases h

/-- An action whose turn comes first is noted when it has ended. -/
theorem atOnce_settle_both (h : x.atOnce s = some (r, s')) (many : Bool) (l : Outcomes α) (i : Nat)
    (w : Weave σ (Nat × Except Fault α)) :
    (settle many l ((Weave.ofAction (i, ·) x).both w)).atOnce s =
      (settle many l (.note (i, r) w)).atOnce s' := by
  induction x generalizing s with
  | done r' =>
    cases h
    rfl
  | read next ih => exact ih s h
  | write t next ih => exact ih h
  | wait ready next _ => cases h

/-- From every state within `I` the action ends with `r` and within `I`, and does not wait. -/
def Ends (I : σ → Prop) (r : Except Fault α) (x : Action σ α) : Prop :=
  ∀ s, I s → ∃ s', x.atOnce s = some (r, s') ∧ I s'

variable {I : σ → Prop}

theorem ends_done (I : σ → Prop) (r : Except Fault α) : Ends I r (done r) :=
  fun s hs => ⟨s, rfl, hs⟩

theorem Ends.run (h : Ends I r x) (hs : I s) : (x.run s).1 = r ∧ I (x.run s).2 := by
  obtain ⟨s', hrun, hs'⟩ := h s hs
  rw [run_eq_of_atOnce hrun]
  exact ⟨rfl, hs'⟩

theorem Ends.andThen {r' : Except Fault β} {k : Except Fault α → Action σ β} (h : Ends I r x)
    (hk : Ends I r' (k r)) : Ends I r' (x.andThen k) := by
  intro s hs
  obtain ⟨s', hrun, hs'⟩ := h s hs
  rw [atOnce_andThen hrun]
  exact hk s' hs'

theorem Ends.onResult {f : α → Action σ β} {g : α → Except Fault β}
    (hf : ∀ a, r = .ok a → Ends I (g a) (f a)) : Ends I (r >>= g) (onResult f r) := by
  cases r with
  | ok a => exact hf a rfl
  | error e => exact ends_done I (.error e)

theorem Ends.bind {f : α → Action σ β} {g : α → Except Fault β} (h : Ends I r x)
    (hf : ∀ a, r = .ok a → Ends I (g a) (f a)) : Ends I (r >>= g) (x >>= f) :=
  h.andThen (Ends.onResult hf)

theorem Ends.state {f : σ → Action σ α} (h : ∀ s, I s → Ends I r (f s)) :
    Ends I r (Action.state >>= f) :=
  fun s hs => h s hs s hs

theorem Ends.pair {y : Action σ β} {r' : Except Fault β} (hx : Ends I r x) (hy : Ends I r' y) :
    Ends I (do return (← r, ← r')) (Action.pair x y) := by
  intro s hs
  obtain ⟨s', hrun, hs'⟩ := hx s hs
  rw [atOnce_pair hrun]
  exact Ends.onResult (fun a _ => hy.bind fun b _ => ends_done I (.ok (a, b))) s' hs'

theorem Ends.forEach {f : α → Action σ β} {r : α → Except Fault β} {as : List α}
    (h : ∀ a ∈ as, Ends I (r a) (f a)) : Ends I (as.mapM r) (Action.forEach f as) := by
  induction as with
  | nil => exact ends_done I (.ok [])
  | cons a as ih =>
    rw [List.mapM_cons]
    refine (h a List.mem_cons_self).bind fun b _ => ?_
    refine (ih fun a' ha' => h a' (List.mem_cons_of_mem a ha')).bind fun bs _ => ?_
    exact ends_done I (.ok (b :: bs))

namespace Outcomes

/-- The first actions gave the results, the others have not ended. -/
def upTo (results : List β) (rest : List α) : Outcomes β :=
  results.map (fun b => some (.ok b)) ++ rest.map fun _ => none

theorem findSome?_fault?_results (bs : List β) (l : Outcomes β) :
    (bs.map (fun b => some (.ok b)) ++ l : Outcomes β).findSome? fault? = l.findSome? fault? := by
  induction bs with
  | nil => rfl
  | cons b bs ih => exact ih

theorem inOrder_results (bs : List β) (l : Outcomes β) :
    inOrder (bs.map (fun b => some (.ok b)) ++ l) = (inOrder l).map fun r => r.map (bs ++ ·) := by
  induction bs with
  | nil =>
    change inOrder l = _
    rcases inOrder l with - | - | - <;> rfl
  | cons b bs ih =>
    rw [List.map_cons, List.cons_append, inOrder, ih, Option.map_map]
    congr 1
    funext r
    cases r <;> rfl

theorem set_ok (bs : List β) (a : α) (rest : List α) (b : β) :
    (upTo bs (a :: rest)).set bs.length (some (.ok b)) = upTo (bs ++ [b]) rest := by
  simp [upTo]

theorem decided_set_error (many : Bool) (bs : List β) (a : α) (rest : List α) (e : Fault) :
    decided many ((upTo bs (a :: rest)).set bs.length (some (.error e))) = some (.error e) := by
  have hset : (upTo bs (a :: rest)).set bs.length (some (.error e)) =
      bs.map (fun b => some (.ok b)) ++ some (.error e) :: rest.map fun _ => none := by
    simp [upTo]
  rw [hset]
  cases many with
  | true => exact inOrder_results bs _
  | false =>
    unfold decided
    rw [if_neg Bool.false_ne_true, findSome?_fault?_results]
    rfl

theorem decided_upTo (many : Bool) (bs : List β) (rest : List α) :
    decided many (upTo bs rest) = if rest = [] then some (.ok bs) else none := by
  have hfault : (upTo bs rest).findSome? fault? = none := by
    rw [upTo, findSome?_fault?_results]
    induction rest with
    | nil => rfl
    | cons a rest ih => exact ih
  have hinOrder : decided many (upTo bs rest) = inOrder (upTo bs rest) := by
    unfold decided
    rw [hfault, ite_self]
  rw [hinOrder, upTo, inOrder_results]
  cases rest with
  | nil => simp [inOrder, Except.map]
  | cons a rest => rfl

end Outcomes

/-- From every state within `I` the action ends within `I` and does not wait, and if it ends with a
result that is in `P`. -/
def Instant (I : σ → Prop) (P : α → Prop) (x : Action σ α) : Prop :=
  ∀ s, I s → ∃ r s', x.atOnce s = some (r, s') ∧ Meets P (fun _ => True) r ∧ I s'

variable {P : α → Prop} {Q : β → Prop}

theorem Ends.instant (h : Ends I r x) (hr : Meets P (fun _ => True) r) : Instant I P x := by
  intro s hs
  obtain ⟨s', hrun, hs'⟩ := h s hs
  exact ⟨r, s', hrun, hr, hs'⟩

theorem Instant.pure {a : α} (h : P a) : Instant I P (Pure.pure a : Action σ α) :=
  (ends_done I (.ok a)).instant h

theorem instant_fail (e : Fault) : Instant I P (fail e : Action σ α) :=
  (ends_done I (.error e)).instant trivial

theorem Instant.run (h : Instant I P x) (hs : I s) : I (x.run s).2 := by
  obtain ⟨r, s', hrun, -, hs'⟩ := h s hs
  rwa [run_eq_of_atOnce hrun]

theorem Instant.atOnce_eq (h : Instant I P x) (hs : I s) : x.atOnce s = some (x.run s) := by
  obtain ⟨r, s', hrun, -⟩ := h s hs
  rw [hrun, run_eq_of_atOnce hrun]

theorem Instant.andThen {k : Except Fault α → Action σ β} (h : Instant I P x)
    (hk : ∀ r, Meets P (fun _ => True) r → Instant I Q (k r)) : Instant I Q (x.andThen k) := by
  intro s hs
  obtain ⟨r, s', hrun, hr, hs'⟩ := h s hs
  rw [atOnce_andThen hrun]
  exact hk r hr s' hs'

theorem instant_onResult {f : α → Action σ β} (hf : ∀ a, P a → Instant I Q (f a))
    (r : Except Fault α) (h : Meets P (fun _ => True) r) : Instant I Q (onResult f r) := by
  cases r with
  | ok a => exact hf a h
  | error e => exact instant_fail e

theorem Instant.bind {f : α → Action σ β} (h : Instant I P x) (hf : ∀ a, P a → Instant I Q (f a)) :
    Instant I Q (x >>= f) :=
  h.andThen (instant_onResult hf)

theorem Instant.state {f : σ → Action σ α} (h : ∀ s, I s → Instant I P (f s)) :
    Instant I P (Action.state >>= f) :=
  fun s hs => h s hs s hs

theorem Instant.pair {y : Action σ β} (hx : Instant I P x) (hy : Instant I Q y) :
    Instant I (fun _ => True) (Action.pair x y) := by
  intro s hs
  obtain ⟨r, s', hrun, hr, hs'⟩ := hx s hs
  rw [atOnce_pair hrun]
  have hrest (a : α) (_ : P a) : Instant I (fun _ : α × β => True)
      (y.andThen (onResult fun b => done (.ok (a, b)))) :=
    hy.bind fun b _ => Instant.pure trivial
  exact instant_onResult hrest r hr s' hs'

theorem Instant.forEach {f : α → Action σ β} {as : List α} (h : ∀ a ∈ as, Instant I Q (f a)) :
    Instant I (fun bs => ∀ b ∈ bs, Q b) (Action.forEach f as) := by
  induction as with
  | nil => exact Instant.pure (List.forall_mem_nil _)
  | cons a as ih =>
    apply (h a List.mem_cons_self).bind
    intro b hb
    apply (ih fun a' ha' => h a' (List.mem_cons_of_mem a ha')).bind
    exact fun bs hbs => Instant.pure (List.forall_mem_cons.2 ⟨hb, hbs⟩)

/-- After the first actions gave the results, the rest go on one after the other. -/
theorem Instant.atOnce_settle (many : Bool) {f : α → Action σ β} {as : List α} (bs : List β)
    (h : ∀ a ∈ as, Instant I Q (f a)) (hs : I s) :
    (settle many (Outcomes.upTo bs as) (((as.map f).zipIdx bs.length).foldr
      (fun (x, i) w => (Weave.ofAction (i, ·) x).both w) .ended)).atOnce s =
        ((Action.forEach f as).andThen fun r => done (r.map (bs ++ ·))).atOnce s := by
  induction as generalizing bs s with
  | nil =>
    have hdecided : Outcomes.decided many (Outcomes.upTo bs ([] : List α)) = some (.ok bs) := by
      rw [Outcomes.decided_upTo, if_pos rfl]
    have hlist : (Except.ok [] : Except Fault (List β)).map (bs ++ ·) = .ok bs :=
      congrArg Except.ok (List.append_nil bs)
    change some ((Outcomes.decided many (Outcomes.upTo bs ([] : List α))).getD (.ok []), s) =
      some ((Except.ok []).map (bs ++ ·), s)
    rw [hdecided, hlist]
    rfl
  | cons a as ih =>
    obtain ⟨r, s', hrun, -, hs'⟩ := h a List.mem_cons_self s hs
    rw [List.map_cons, List.zipIdx_cons, List.foldr_cons, atOnce_settle_both hrun]
    change _ = (((f a).andThen _).andThen _).atOnce s
    rw [andThen_andThen, atOnce_andThen hrun, settle]
    cases r with
    | error e =>
      rw [Outcomes.decided_set_error]
      rfl
    | ok b =>
      rw [Outcomes.set_ok, Outcomes.decided_upTo]
      by_cases hlast : as = []
      · subst hlast
        rfl
      · have hrest := ih (bs ++ [b]) (fun a' ha' => h a' (List.mem_cons_of_mem a ha')) hs'
        rw [List.length_append] at hrest
        rw [if_neg hlast]
        refine hrest.trans ?_
        change _ = (((Action.forEach f as).andThen _).andThen _).atOnce s'
        rw [andThen_andThen]
        congr 2
        funext r
        cases r with
        | error e => rfl
        | ok bs' => exact congrArg (fun l => done (.ok l)) (List.append_cons bs b bs').symm

/-- Side by side, actions that do not wait do what they do one after the other. -/
theorem Instant.atOnce_together (size : Nat) {f : α → Action σ β} {as : List α}
    (h : ∀ a ∈ as, Instant I Q (f a)) (hs : I s) :
    (Action.together size (as.map f)).atOnce s = (Action.forEach f as).atOnce s := by
  have hnone : (as.map f).map (fun _ => none) = (Outcomes.upTo [] as : Outcomes β) := by
    rw [List.map_map]
    rfl
  have hnil : (fun r : Except Fault (List β) => (done (r.map ([] ++ ·)) : Action σ (List β))) =
      done := by
    funext r
    cases r <;> rfl
  have hsettle := Instant.atOnce_settle (few < size) [] h hs
  rw [hnil, andThen_done] at hsettle
  rw [Action.together, hnone]
  exact hsettle

theorem Instant.together (size : Nat) {f : α → Action σ β} {as : List α}
    (h : ∀ a ∈ as, Instant I Q (f a)) :
    Instant I (fun bs => ∀ b ∈ bs, Q b) (Action.together size (as.map f)) := by
  intro s hs
  rw [Instant.atOnce_together size h hs]
  exact Instant.forEach h s hs

theorem Ends.together (size : Nat) {f : α → Action σ β} {r : α → Except Fault β} {as : List α}
    (h : ∀ a ∈ as, Ends I (r a) (f a)) :
    Ends I (as.mapM r) (Action.together size (as.map f)) := by
  intro s hs
  have hinstant : ∀ a ∈ as, Instant I (fun _ => True) (f a) := fun a ha =>
    (h a ha).instant (meets_true (r a))
  rw [Instant.atOnce_together size hinstant hs]
  exact Ends.forEach h s hs

/-- From whichever state within `I`, the action ends at once with the same outcome, and if that is a
result it is in `P`. -/
def Determined (I : σ → Prop) (P : α → Prop) (x : Action σ α) : Prop :=
  ∃ r, Ends I r x ∧ Meets P (fun _ => True) r

theorem Ends.determined (h : Ends I r x) : Determined I (fun _ => True) x :=
  ⟨r, h, meets_true r⟩

theorem determined_fail (e : Fault) : Determined I P (fail e : Action σ α) :=
  ⟨.error e, ends_done I (.error e), trivial⟩

theorem Determined.pure {a : α} (h : P a) : Determined I P (Pure.pure a : Action σ α) :=
  ⟨.ok a, ends_done I (.ok a), h⟩

theorem Determined.bind {f : α → Action σ β} (h : Determined I P x)
    (hf : ∀ a, P a → Determined I Q (f a)) : Determined I Q (x >>= f) := by
  obtain ⟨r, hx, hr⟩ := h
  cases r with
  | error e => exact ⟨.error e, hx.bind (g := fun _ => .error e) nofun, trivial⟩
  | ok a =>
    obtain ⟨r', ha, hr'⟩ := hf a hr
    refine ⟨r', hx.bind (g := fun _ => r') fun a' ha' => ?_, hr'⟩
    cases ha'
    exact ha

/-- Where there is no state to begin in, everything is determined. -/
theorem determined_of_forall_not (h : ∀ s, ¬ I s) : Determined I P x :=
  ⟨.error .missingFactId, fun s hs => absurd hs (h s), trivial⟩

theorem Determined.ends (h : Determined I P x) (hs : I s) : Ends I (x.run s).1 x := by
  obtain ⟨r, hends, -⟩ := h
  rwa [(hends.run hs).1]

theorem Determined.meets (h : Determined I P x) (hs : I s) :
    Meets P (fun _ => True) (x.run s).1 := by
  obtain ⟨r, hends, hr⟩ := h
  rwa [(hends.run hs).1]

/-- Reading a state determines what follows if that is the same for all states. -/
theorem Determined.state {f : σ → Action σ α} (hf : ∀ s s', I s → I s' → f s = f s')
    (h : ∀ s, I s → Determined I P (f s)) : Determined I P (Action.state >>= f) := by
  by_cases hstate : ∃ s, I s
  · obtain ⟨s, hs⟩ := hstate
    obtain ⟨r, hends, hr⟩ := h s hs
    exact ⟨r, Ends.state fun s' hs' => hf s s' hs hs' ▸ hends, hr⟩
  · exact determined_of_forall_not (not_exists.1 hstate)

theorem Determined.pair {y : Action σ β} (hx : Determined I P x) (hy : Determined I Q y) :
    Determined I (fun _ => True) (Action.pair x y) := by
  obtain ⟨r, hx, -⟩ := hx
  obtain ⟨r', hy, -⟩ := hy
  exact (hx.pair hy).determined

theorem meets_mapM {r : α → Except Fault β} {as : List α}
    (h : ∀ a ∈ as, Meets Q (fun _ => True) (r a)) :
    Meets (fun bs => ∀ b ∈ bs, Q b) (fun _ => True) (as.mapM r) := by
  induction as with
  | nil => exact nofun
  | cons a as ih =>
    rw [List.mapM_cons]
    have ha := h a List.mem_cons_self
    have has := ih fun a' ha' => h a' (List.mem_cons_of_mem a ha')
    cases hr : r a with
    | error e => trivial
    | ok b =>
      rw [hr] at ha
      cases hrs : as.mapM r with
      | error e => trivial
      | ok bs =>
        rw [hrs] at has
        exact List.forall_mem_cons.2 ⟨ha, has⟩

theorem Determined.together (size : Nat) {f : α → Action σ β} {as : List α}
    (h : ∀ a ∈ as, Determined I Q (f a)) :
    Determined I (fun bs => ∀ b ∈ bs, Q b) (Action.together size (as.map f)) := by
  by_cases hstate : ∃ s, I s
  · obtain ⟨s, hs⟩ := hstate
    exact ⟨as.mapM fun a => ((f a).run s).1, Ends.together size fun a ha => (h a ha).ends hs,
      meets_mapM fun a ha => (h a ha).meets hs⟩
  · exact determined_of_forall_not (not_exists.1 hstate)

end Verdict.Action
