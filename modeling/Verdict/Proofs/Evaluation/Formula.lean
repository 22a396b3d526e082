import Verdict.Evaluation

/-!
# Conditions as formulas

A condition is expanded by putting the stored conditions in place of the references to them. The
formula that is left has a meaning of three values, in which no priority counts: `none` is the
unknown verdict of what fails. Neither the order of the conditions in a group nor their
priorities change the meaning.
-/
namespace Verdict

/-! The strong three-valued connectives. -/

namespace Kleene

def and : Option Bool → Option Bool → Option Bool
  | some false, _ => some false
  | _, some false => some false
  | some true, some true => some true
  | _, _ => none

def or : Option Bool → Option Bool → Option Bool
  | some true, _ => some true
  | _, some true => some true
  | some false, some false => some false
  | _, _ => none

def not (v : Option Bool) : Option Bool := v.map (!·)

end Kleene

namespace Quantifier

def kleene : Quantifier → Option Bool → Option Bool → Option Bool
  | all => Kleene.and
  | any => Kleene.or

def combine (q : Quantifier) (vs : List (Option Bool)) : Option Bool :=
  vs.foldr q.kleene (some q.neutral)

theorem combine_of_decisive {q : Quantifier} {vs : List (Option Bool)}
    (h : some (!q.neutral) ∈ vs) : q.combine vs = some !q.neutral := by
  induction vs with
  | nil => cases h
  | cons v vs ih =>
    rcases List.mem_cons.1 h with rfl | h
    · cases q <;> rfl
    · have habsorb (v : Option Bool) : q.kleene v (some !q.neutral) = some !q.neutral := by
        cases q <;> rcases v with - | - | - <;> rfl
      rw [combine, List.foldr_cons, ← combine, ih h, habsorb]

theorem combine_of_neutral {q : Quantifier} {vs : List (Option Bool)}
    (h : ∀ v ∈ vs, v = some q.neutral) : q.combine vs = some q.neutral := by
  induction vs with
  | nil => rfl
  | cons v vs ih =>
    rw [combine, List.foldr_cons, ← combine, ih fun w hw => h w (by simp [hw]), h v (by simp)]
    cases q <;> rfl

theorem combine_perm {q : Quantifier} {vs ws : List (Option Bool)} (h : vs.Perm ws) :
    q.combine vs = q.combine ws := by
  have hcomm (v w z : Option Bool) : q.kleene w (q.kleene v z) = q.kleene v (q.kleene w z) := by
    cases q <;> rcases v with - | - | - <;> rcases w with - | - | - <;>
      rcases z with - | - | - <;> rfl
  exact h.foldr_eq' (fun v _ w _ z => hcomm v w z) _

end Quantifier

/-- What a comparison needs in order to be decided. -/
structure Comparison where
  operator : String
  value : Json
  fact : String
  params : Json
  path : Option String

def Condition.Leaf.comparison (l : Leaf) : Comparison :=
  ⟨l.operator, l.value, l.fact, l.params.getD .null, l.path⟩

/-- What is left of a condition without its references and priorities. -/
inductive Formula where
  | comparison (c : Comparison)
  | constant (verdict : Option Bool)
  | not (f : Formula)
  | group (q : Quantifier) (fs : List Formula)

namespace Formula
variable (test : Comparison → Option Bool)

mutual

/-- The verdict on a formula, if `test` gives that on each comparison. -/
def meaning : Formula → Option Bool
  | comparison c => test c
  | constant verdict => verdict
  | not f => Kleene.not (meaning f)
  | group q fs => q.combine (meanings fs)

def meanings : List Formula → List (Option Bool)
  | [] => []
  | f :: fs => meaning f :: meanings fs

end

mutual

/-- Has every comparison and every constant of the formula a verdict? -/
def isSound : Formula → Bool
  | comparison c => (test c).isSome
  | constant verdict => verdict.isSome
  | not f => isSound f
  | group _ fs => areSound fs

def areSound : List Formula → Bool
  | [] => true
  | f :: fs => isSound f && areSound fs

end

theorem meanings_eq_map (fs : List Formula) : meanings test fs = fs.map (meaning test) := by
  induction fs with
  | nil => rfl
  | cons f fs ih => rw [meanings, ih, List.map_cons]

theorem areSound_iff {fs : List Formula} : areSound test fs ↔ ∀ f ∈ fs, isSound test f := by
  induction fs with
  | nil => simp [areSound]
  | cons f fs ih => simp [areSound, ih]

end Formula

open Condition

/-- The formula of a condition inside the stored conditions of the chain. A reference inside the
condition that it names is unknown; one to no stored condition is unknown or false. -/
def Engine.expand (e : Engine) (chain : List String) (c : Condition) : Formula :=
  match c with
  | .group q _ cs => .group q (cs.map fun c => expand e chain c)
  | .not _ c => .not (expand e chain c)
  | .leaf l => .comparison l.comparison
  | .reference r =>
    if _hnew : r.condition ∈ chain then .constant none
    else
      match _hget : e.conditions.get? r.condition with
      | some stored => expand e (chain ++ [r.condition]) stored
      | none => .constant (if e.policy.allowUndefinedConditions then some false else none)
termination_by ((e.unexpanded chain).length, sizeOf c)
decreasing_by
  · apply Prod.Lex.right
    have := List.sizeOf_lt_of_mem ‹_›
    rw [group.sizeOf_spec]
    omega
  · apply Prod.Lex.right
    rw [not.sizeOf_spec]
    omega
  · apply Prod.Lex.left
    exact e.unexpanded_append_lt _hnew _hget

theorem Condition.clearAll_eq_map (cs : List Condition) : clearAll cs = cs.map clear := by
  induction cs with
  | nil => rfl
  | cons c cs ih => rw [clearAll, ih, List.map_cons]

namespace Engine

theorem expand_of_mem {e : Engine} {chain : List String} {r : Reference}
    (h : r.condition ∈ chain) : e.expand chain (.reference r) = .constant none := by
  rw [expand, dif_pos h]

theorem expand_of_get? {e : Engine} {chain : List String} {r : Reference} {stored : Condition}
    (hnew : r.condition ∉ chain) (h : e.conditions.get? r.condition = some stored) :
    e.expand chain (.reference r) = e.expand (chain ++ [r.condition]) stored := by
  rw [expand, dif_neg hnew]
  split
  · rename_i stored' h'
    rw [Option.some.inj (h.symm.trans h')]
  · rename_i h'
    rw [h] at h'
    cases h'

theorem expand_of_get?_eq_none {e : Engine} {chain : List String} {r : Reference}
    (hnew : r.condition ∉ chain) (h : e.conditions.get? r.condition = none) :
    e.expand chain (.reference r) =
      .constant (if e.policy.allowUndefinedConditions then some false else none) := by
  rw [expand, dif_neg hnew]
  split
  · rename_i stored h'
    rw [h] at h'
    cases h'
  · rfl

theorem expand_clear (e : Engine) (chain : List String) (c : Condition) :
    e.expand chain c.clear = e.expand chain c := by
  induction chain, c using Engine.expand.induct (e := e) with
  | case1 chain q h cs ih =>
    rw [clear, expand, expand, clearAll_eq_map, List.map_map]
    exact congrArg _ (List.map_congr_left ih)
  | case2 chain h c ih => rw [clear, expand, expand, ih]
  | case3 chain l => rw [clear, expand, expand]; rfl
  | _ => rfl

theorem expand_inherit (e : Engine) (chain : List String) (c : Condition) (r : Reference) :
    e.expand chain (c.inherit r) = e.expand chain c := by
  cases c with
  | group q h cs => rw [inherit, expand, expand]
  | not h c => rw [inherit, expand, expand]
  | leaf l => rw [inherit, expand, expand]; rfl
  | reference r' => rw [inherit, expand, expand]

/-- The metadata that a reference hands on has no part in the formula. -/
theorem expand_realize (e : Engine) (chain : List String) (stored : Condition) (r : Reference) :
    e.expand chain (realize stored r) = e.expand chain stored := by
  rw [realize, expand_inherit, expand_clear]

end Engine

mutual

/-- The conditions differ only in priorities and in the order inside groups. -/
inductive Condition.Rearranged : Condition → Condition → Prop
  | group {q : Quantifier} {h : Heading} {cs ds ds' : List Condition} (priority : Int64)
      (hcs : RearrangedAll cs ds) (hperm : ds.Perm ds') :
      Rearranged (.group q h cs) (.group q { h with priority } ds')
  | not {h : Heading} {c c' : Condition} (priority : Int64) (hc : Rearranged c c') :
      Rearranged (.not h c) (.not { h with priority } c')
  | reference {r : Reference} (priority : Option Int64) :
      Rearranged (.reference r) (.reference { r with priority })
  | leaf {l : Leaf} (priority : Option Int64) : Rearranged (.leaf l) (.leaf { l with priority })

inductive Condition.RearrangedAll : List Condition → List Condition → Prop
  | nil : RearrangedAll [] []
  | cons {c c' : Condition} {cs cs' : List Condition} (hc : Rearranged c c')
      (hcs : RearrangedAll cs cs') : RearrangedAll (c :: cs) (c' :: cs')

end

/-- The stored conditions differ only in priorities and in the order inside groups, and the
policy for those that are not there is the same. -/
structure Engine.Rearranged (e e' : Engine) : Prop where
  allowUndefinedConditions :
    e'.policy.allowUndefinedConditions = e.policy.allowUndefinedConditions
  none_iff : ∀ name, e'.conditions.get? name = none ↔ e.conditions.get? name = none
  stored : ∀ {name c c'}, e.conditions.get? name = some c → e'.conditions.get? name = some c' →
    c.Rearranged c'

mutual

theorem Condition.Rearranged.refl : ∀ c : Condition, c.Rearranged c
  | .group _ h cs => .group h.priority (RearrangedAll.refl cs) (.refl cs)
  | .not h c => .not h.priority (Rearranged.refl c)
  | .reference r => .reference r.priority
  | .leaf l => .leaf l.priority

theorem Condition.RearrangedAll.refl : ∀ cs : List Condition, RearrangedAll cs cs
  | [] => .nil
  | c :: cs => .cons (Rearranged.refl c) (RearrangedAll.refl cs)

end

theorem Engine.Rearranged.refl (e : Engine) : e.Rearranged e where
  allowUndefinedConditions := rfl
  none_iff _ := Iff.rfl
  stored {_ c _} h h' := Option.some.inj (h.symm.trans h') ▸ Condition.Rearranged.refl c

theorem Condition.RearrangedAll.map_eq {cs ds : List Condition} (h : RearrangedAll cs ds)
    {f g : Condition → Option Bool} (hfg : ∀ c ∈ cs, ∀ c', c.Rearranged c' → f c = g c') :
    cs.map f = ds.map g := by
  induction cs generalizing ds with
  | nil =>
    cases h
    rfl
  | cons c cs ih =>
    cases h with
    | @cons _ c' _ cs' hc hcs =>
      rw [List.map_cons, List.map_cons, hfg c (by simp) c' hc,
        ih hcs fun c hc => hfg c (by simp [hc])]

theorem Engine.meaning_expand_of_rearranged {e e' : Engine} (he : e.Rearranged e')
    (test : Comparison → Option Bool) (chain : List String) {c c' : Condition}
    (hc : c.Rearranged c') :
    (e.expand chain c).meaning test = (e'.expand chain c').meaning test := by
  induction chain, c using Engine.expand.induct (e := e) generalizing c' with
  | case1 chain q h cs ih =>
    cases hc with
    | @group _ _ _ ds ds' priority hcs hperm =>
      rw [expand, expand, Formula.meaning, Formula.meaning, Formula.meanings_eq_map,
        Formula.meanings_eq_map, List.map_map, List.map_map]
      have hmap := hcs.map_eq (f := Formula.meaning test ∘ e.expand chain)
        (g := Formula.meaning test ∘ e'.expand chain) fun c hmem c' hc => ih c hmem hc
      exact (congrArg _ hmap).trans (Quantifier.combine_perm (hperm.map _))
  | case2 chain h c ih =>
    cases hc with
    | not priority hc => rw [expand, expand, Formula.meaning, Formula.meaning, ih hc]
  | case3 chain l =>
    cases hc with
    | leaf priority =>
      rw [expand, expand]
      rfl
  | case4 chain r hmem =>
    cases hc with
    | reference priority => rw [expand_of_mem hmem, expand_of_mem (r := { r with priority }) hmem]
  | case5 chain r hnew stored hget ih =>
    cases hc with
    | reference priority =>
      cases hget' : e'.conditions.get? r.condition with
      | none => simp [(he.none_iff _).1 hget'] at hget
      | some stored' =>
        rw [expand_of_get? hnew hget, expand_of_get? (r := { r with priority }) hnew hget']
        exact ih (he.stored hget hget')
  | case6 chain r hnew hget =>
    cases hc with
    | reference priority =>
      have hget' := (he.none_iff _).2 hget
      rw [expand_of_get?_eq_none hnew hget,
        expand_of_get?_eq_none (r := { r with priority }) hnew hget', he.allowUndefinedConditions]

end Verdict
