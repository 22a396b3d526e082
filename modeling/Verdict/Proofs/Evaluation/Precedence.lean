import Verdict.Proofs.Condition.Metadata
import Verdict.Proofs.Evaluation.Record

/-!
# Precedence along stored references

A reference is expanded one stored condition at a time, and each reference on the way is changed
before the next is looked up. Since taking over metadata is associative, what the condition at the
end shows is what the first of them shows that has it, from the end back to the start.
-/
namespace Verdict
open Verdict.Action Verdict.Condition

/-- The way from a reference to what stands at its end: the references that are expanded, the last
one first, and the stored condition that is none, or the reference whose name is not stored. -/
inductive Engine.Trail (e : Engine) : Reference → List Reference → Condition → Prop
  | target {r : Reference} {target : Condition} (hget : e.conditions.get? r.condition = some target)
      (htarget : target.isReference = false) : Trail e r [r] target
  | missing {r : Reference} (hget : e.conditions.get? r.condition = none) :
      Trail e r [] (.reference r)
  | step {r r' : Reference} {rs : List Reference} {target : Condition}
      (hget : e.conditions.get? r.condition = some (.reference r')) (h : Trail e r' rs target) :
      Trail e r (rs ++ [r]) target

namespace Engine
variable {e : Engine} {r : Reference} {rs rs' : List Reference} {target target' : Condition}

/-- No reference has two ways. -/
theorem Trail.unique (h : e.Trail r rs target) (h' : e.Trail r rs' target') :
    rs = rs' ∧ target = target' := by
  induction h generalizing rs' target' with
  | target hget htarget =>
    cases h' with
    | target hget' _ => exact ⟨rfl, Option.some.inj (hget.symm.trans hget')⟩
    | missing hget' => cases hget.symm.trans hget'
    | step hget' _ =>
      cases hget.symm.trans hget'
      cases htarget
  | missing hget =>
    cases h' with
    | target hget' _ => cases hget.symm.trans hget'
    | missing _ => exact ⟨rfl, rfl⟩
    | step hget' _ => cases hget.symm.trans hget'
  | step hget _ ih =>
    cases h' with
    | target hget' htarget' =>
      cases hget.symm.trans hget'
      cases htarget'
    | missing hget' => cases hget.symm.trans hget'
    | step hget' h' =>
      cases hget.symm.trans hget'
      obtain ⟨rfl, rfl⟩ := ih h'
      exact ⟨rfl, rfl⟩

end Engine

namespace Condition
variable {c c' target : Condition} {r : Reference} {rs : List Reference}

theorem foldl_inherit_reference (rs : List Reference) (r : Reference) :
    rs.foldl inherit (reference r) = reference (rs.foldl Reference.inherit r) := by
  induction rs generalizing r with
  | nil => rfl
  | cons r' rest ih => exact ih (r.inherit r')

theorem condition_foldl_inherit (rs : List Reference) (r : Reference) :
    (rs.foldl Reference.inherit r).condition = r.condition := by
  induction rs generalizing r with
  | nil => rfl
  | cons r' rest ih => exact ih (r.inherit r')

/-- To take over what a reference took over is to take over from it and then from the others. -/
theorem inherit_foldl (t : Condition) (rs : List Reference) (r : Reference) :
    t.inherit (rs.foldl Reference.inherit r) = (r :: rs).foldl inherit t := by
  induction rs generalizing r with
  | nil => rfl
  | cons r' rest ih =>
    rw [List.foldl_cons, ih, List.foldl_cons, ← inherit_inherit, List.foldl_cons, List.foldl_cons]

/-- Where nothing was taken over, the same metadata is shown. -/
theorem merged_nil (hconnective : c'.connective? = c.connective?)
    (hreference : c'.isReference = c.isReference) (hname : c'.name? = c.name?)
    (hpriority : c'.priority? = c.priority?)
    (hextra : ∀ key, (c.isReference → key ≠ "result") → c'.extra.get? key = c.extra.get? key) :
    Merged c [] c' where
  connective?_eq := hconnective
  isReference_eq := hreference
  name?_eq := hname.trans Option.or_none.symm
  priority?_eq _ := hpriority.trans Option.or_none.symm
  priority?_eq_self _ := hpriority
  get?_extra_eq key hkey := (hextra key hkey).trans Option.or_none.symm

theorem Merged.cons (h : Merged (target.inherit r) rs c) : Merged target (r :: rs) c where
  connective?_eq := h.connective?_eq.trans (connective?_inherit _ _)
  isReference_eq := h.isReference_eq.trans (isReference_inherit _ _)
  name?_eq := by
    rw [h.name?_eq, name?_inherit, List.findSome?_cons, Option.or_assoc]
    cases r.name <;> rfl
  priority?_eq hconnective := by
    rw [h.priority?_eq ((connective?_inherit _ _).trans hconnective), priority?_inherit,
      hconnective, List.findSome?_cons]
    cases r.priority <;> simp
  priority?_eq_self hconnective := by
    rw [h.priority?_eq_self (by rwa [connective?_inherit]), priority?_inherit,
      if_pos (Option.isSome_iff_ne_none.2 hconnective)]
  get?_extra_eq key hkey := by
    rw [h.get?_extra_eq key (by rwa [isReference_inherit]), get?_extra_inherit,
      List.findSome?_cons, Option.or_assoc]
    cases r.extra.get? key <;> rfl

theorem merged_foldl (t : Condition) (rs : List Reference) : Merged t rs (rs.foldl inherit t) := by
  induction rs generalizing t with
  | nil => exact merged_nil rfl rfl rfl rfl fun _ _ => rfl
  | cons r rest ih => exact (ih (t.inherit r)).cons

/-- What shows the metadata of a condition shows what was merged in that one. -/
theorem Merged.trans (h : Merged target rs c) (h' : Merged c [] c') : Merged target rs c' where
  connective?_eq := h'.connective?_eq.trans h.connective?_eq
  isReference_eq := h'.isReference_eq.trans h.isReference_eq
  name?_eq := h'.name?_eq.trans (Option.or_none.trans h.name?_eq)
  priority?_eq hconnective :=
    (h'.priority?_eq (h.connective?_eq.trans hconnective)).trans
      (Option.or_none.trans (h.priority?_eq hconnective))
  priority?_eq_self hconnective :=
    (h'.priority?_eq_self (h.connective?_eq ▸ hconnective)).trans (h.priority?_eq_self hconnective)
  get?_extra_eq key hkey :=
    (h'.get?_extra_eq key (h.isReference_eq ▸ hkey)).trans
      (Option.or_none.trans (h.get?_extra_eq key hkey))

theorem Merged.of_clear (h : Merged target.clear rs c) : Merged target rs c := by
  cases target <;>
    exact ⟨h.connective?_eq, h.isReference_eq, h.name?_eq, h.priority?_eq, h.priority?_eq_self,
      h.get?_extra_eq⟩

end Condition

namespace Engine
variable {σ : Type} {e : Engine} {p : Provider σ} {P : Leaf → Prop} {chain : List String}
variable {c c' : Condition} {verdict : Bool}

/-- An evaluation leaves the metadata of a condition that is no reference. -/
theorem Ran.merged_nil (h : e.Ran p P chain c verdict c') (hc : c.isReference = false) :
    Merged c [] c' := by
  cases h with
  | expanded => cases hc
  | missing => cases hc
  | _ => exact Condition.merged_nil rfl rfl rfl rfl fun _ _ => rfl

/-- The invariant of an expansion: the reference that is looked up is the stored one, with the
metadata of those that were expanded before. -/
theorem Ran.exists_trail {ref : Reference} (h : e.Ran p P chain (.reference ref) verdict c')
    {r : Reference} {rs : List Reference} (href : rs.foldl Reference.inherit r = ref) :
    ∃ trail target, e.Trail r trail target ∧ Merged target (trail ++ rs) c' := by
  generalize hc : Condition.reference ref = c at h
  induction h generalizing ref r rs with
  | group => cases hc
  | not => cases hc
  | leaf => cases hc
  | @expanded chain ref stored c' verdict _ hget hran ih =>
    cases hc
    subst href
    rw [condition_foldl_inherit] at hget
    have hrealize : realize stored (rs.foldl Reference.inherit r) =
        (r :: rs).foldl inherit stored.clear := inherit_foldl _ _ _
    cases hstored : stored.isReference with
    | true =>
      cases stored with
      | reference r' =>
        obtain ⟨trail, target, htrail, hmerged⟩ :=
          @ih _ r' (r :: rs) rfl (hrealize.trans (foldl_inherit_reference _ _)).symm
        refine ⟨trail ++ [r], target, .step hget htrail, ?_⟩
        rwa [List.append_assoc]
      | _ => cases hstored
    | false =>
      have hkind : (realize stored (rs.foldl Reference.inherit r)).isReference = false := by
        rw [realize, isReference_inherit]
        cases stored <;> first | rfl | cases hstored
      refine ⟨[r], stored, .target hget hstored, Merged.of_clear ?_⟩
      exact (merged_foldl stored.clear (r :: rs)).trans (hrealize ▸ hran.merged_nil hkind)
  | missing _ hget _ =>
    cases hc
    subst href
    rw [condition_foldl_inherit] at hget
    have hmerged : Merged (.reference r) rs (.reference (rs.foldl Reference.inherit r)) :=
      foldl_inherit_reference rs r ▸ merged_foldl (.reference r) rs
    refine ⟨[], .reference r, .missing hget, hmerged.trans ?_⟩
    exact Condition.merged_nil rfl rfl rfl rfl fun _ hkey => Table.get?_insert_of_ne _ (hkey rfl) _

/-- Taking over metadata twice is taking it over once, taking it over from one reference and then
from another is taking it over from the one that took it over from the other, and what is there
stays. So, in the tree of a report, whatever took the place of a reference shows the metadata of
what stands at the end of the way from there, and where that has none, what the last reference on
the way shows that has it. A group or a negation keeps its priority. -/
theorem metadata_precedence (defaults : Bool) (calls : List Registry.Call) (e : Engine)
    (p : Provider σ) :
    let operators := Registry.run defaults calls
    (∀ (t : Condition) (r₁ r₂ : Reference),
      (t.inherit r₁).inherit r₁ = t.inherit r₁ ∧
      (∃ r₂', (reference r₂).inherit r₁ = reference r₂' ∧
        (t.inherit r₂).inherit r₁ = t.inherit r₂') ∧
      (∀ name, t.name? = some name → (t.inherit r₁).name? = some name) ∧
      (∀ priority, t.priority? = some priority → (t.inherit r₁).priority? = some priority) ∧
      ∀ key v, t.extra.get? key = some v → (t.inherit r₁).extra.get? key = some v) ∧
    (∀ (rule : Rule) (facts : σ) (report : Report) (w : World σ),
      (e.execute p rule).run ⟨operators, facts⟩ = (.ok report, w) →
      ∃ verdict, e.Ran p (Leaf.Explained operators) [] rule.conditions verdict report.conditions) ∧
    ∀ (chain : List String) (r : Reference) (verdict : Bool) (c : Condition),
      e.Ran p (Leaf.Explained operators) chain (.reference r) verdict c →
      (∃ rs target, e.Trail r rs target) ∧
      ∀ rs target, e.Trail r rs target → Merged target rs c := by
  intro operators
  refine ⟨fun t r₁ r₂ => ⟨inherit_inherit_self t r₁, ⟨r₂.inherit r₁, rfl, inherit_inherit t r₂ r₁⟩,
    shown_inherit t r₁⟩, fun rule facts report w h => ?_, fun chain r verdict c h => ?_⟩
  · have hstart : World.Extends operators (fun _ => True) (⟨operators, facts⟩ : World σ) :=
      ⟨(Registry.wellNamed_run defaults calls).coherent, rfl, True.intro⟩
    obtain ⟨verdict, -, hran⟩ :=
      ((ensures_execute_ran operators e p rule).run hstart).1.of_eq_ok (congrArg Prod.fst h)
    exact ⟨verdict, hran⟩
  · have hempty : ([] : List Reference).foldl Reference.inherit r = r := rfl
    obtain ⟨rs, target, htrail, hmerged⟩ := h.exists_trail hempty
    refine ⟨⟨rs, target, htrail⟩, fun rs' target' htrail' => ?_⟩
    obtain ⟨rfl, rfl⟩ := htrail.unique htrail'
    rwa [List.append_nil] at hmerged

/-- A rule asks for a check of adults, who are the grown: the comparison at the end is named by the
rule, and has the priority of the stored reference. -/
theorem metadata_precedence_adult :
    let facts : Table Json := .ofList [("age", .ofInt64 20)]
    let p : Provider Unit := .ofTable facts
    let grown : Leaf := .ofComparison "age" "not:lessThan" (.ofInt64 18)
    let adult : Reference := ⟨"grown", none, some 3, .ofList [("note", .null)]⟩
    let asked : Reference := ⟨"adult", some "check", some 7, .ofList [("note", .bool true)]⟩
    let e : Engine := ⟨.ofList [("adult", .reference adult), ("grown", .leaf grown)], {}⟩
    let rule : Rule := ⟨none, 1, .reference asked, ⟨"admit", none⟩⟩
    ((reference adult).inherit asked).priority? = some 3 ∧
    ((reference adult).inherit asked).extra.get? "note" = some .null ∧
    ((reference asked).inherit adult).name? = some "check" ∧
    ∃ report w, (e.execute p rule).run ⟨Registry.run true [], ()⟩ = (.ok report, w) ∧
      report.conditions.name? = some "check" ∧ report.conditions.priority? = some 3 ∧
      report.conditions.extra.get? "note" = some .null := by
  intro facts p grown adult asked e rule
  have hadult : e.conditions.get? "adult" = some (.reference adult) :=
    (Table.get?_insert_of_ne _ (by decide) _).trans (Table.get?_insert_self .empty _ _)
  have hgrown : e.conditions.get? "grown" = some (.leaf grown) := Table.get?_insert_self _ _ _
  have htrail : e.Trail asked [adult, asked] (.leaf grown) :=
    .step hadult (.target hgrown rfl)
  have hformula : e.expand [] rule.conditions = .comparison grown.comparison := by
    have hasked : e.expand [] (.reference asked) = e.expand ["adult"] (.reference adult) :=
      expand_of_get? List.not_mem_nil hadult
    have hnext : e.expand ["adult"] (.reference adult) =
        e.expand ["adult", "grown"] (.leaf grown) := expand_of_get? (by decide) hgrown
    rw [hasked, hnext, expand]
  have hmeets : Meets _ _ ((e.execute p rule).run ⟨Registry.run true [], ()⟩).1 :=
    meets_execute true [] e rule (Provider.gives_ofTable (I := fun _ => True) facts) trivial rfl
  rw [hformula] at hmeets
  obtain ⟨halgebra, hreport, hmerged⟩ := metadata_precedence true [] e p
  obtain ⟨-, -, -, hpriority, hextra⟩ := halgebra (.reference adult) asked adult
  obtain ⟨-, -, hname, -, -⟩ := halgebra (.reference asked) adult asked
  refine ⟨hpriority 3 rfl, hextra "note" .null rfl, hname "check" rfl, ?_⟩
  cases hrun : (e.execute p rule).run ⟨Registry.run true [], ()⟩ with
  | mk outcome w =>
    rw [hrun] at hmeets
    cases outcome with
    | error fault => exact absurd (by decide +kernel) hmeets
    | ok report =>
      obtain ⟨verdict, hran⟩ := hreport rule () report w hrun
      have hshown := (hmerged [] asked verdict report.conditions hran).2 _ _ htrail
      exact ⟨report, w, rfl, hshown.name?_eq, hshown.priority?_eq rfl,
        hshown.get?_extra_eq "note" fun h => absurd h Bool.false_ne_true⟩

end Engine
end Verdict
