import Mathlib.Data.List.Chain
import Verdict.Proofs.Evaluation.Blame
import Verdict.Proofs.Evaluation.Trace

/-!
# Circular references

The names on the chain of a call lead from one stored condition to the next, and lead on to each
name that the condition of the call refers to. So a circular call has found a circle among the
references, and where there is no circle that a rule leads to, the rule does not fail for one.
-/
namespace Verdict
open Verdict.Action Verdict.Condition

namespace Condition

mutual

/-- The names that the condition refers to, those in stored conditions left out. -/
def references : Condition → List String
  | group _ _ cs => referencesAll cs
  | not _ c => references c
  | reference r => [r.condition]
  | leaf _ => []

def referencesAll : List Condition → List String
  | [] => []
  | c :: cs => references c ++ referencesAll cs

end

theorem references_subset_referencesAll {c : Condition} {cs : List Condition} (h : c ∈ cs) :
    c.references ⊆ referencesAll cs := by
  induction cs with
  | nil => cases h
  | cons c' cs ih =>
    rw [referencesAll]
    rcases List.mem_cons.1 h with rfl | h
    · exact List.subset_append_left _ _
    · exact List.Subset.trans (ih h) (List.subset_append_right _ _)

mutual

theorem references_clear : ∀ c : Condition, c.clear.references = c.references
  | group _ _ cs => by rw [clear, references, references, referencesAll_clearAll cs]
  | not _ c => by rw [clear, references, references, references_clear c]
  | reference _ => by rw [clear]
  | leaf _ => by rw [clear, references, references]

theorem referencesAll_clearAll :
    ∀ cs : List Condition, referencesAll (clearAll cs) = referencesAll cs
  | [] => by rw [clearAll]
  | c :: cs => by
    rw [clearAll, referencesAll, referencesAll, references_clear c, referencesAll_clearAll cs]

end

theorem references_inherit (c : Condition) (r : Reference) :
    (c.inherit r).references = c.references := by
  cases c <;> rw [inherit, references, references]

end Condition

namespace Engine
variable {e : Engine} {c c' : Condition} {names chain : List String} {n : Nat}

theorem references_realize (stored : Condition) (r : Reference) :
    (realize stored r).references = stored.references := by
  rw [realize, references_inherit, references_clear]

/-- The stored condition of the first name refers to the second. -/
def Refers (e : Engine) (name name' : String) : Prop :=
  ∃ stored, e.conditions.get? name = some stored ∧ name' ∈ stored.references

/-- The condition refers to the first of the names, and each stored one to the next name. -/
structure Led (e : Engine) (c : Condition) (names : List String) : Prop where
  first : ∀ name ∈ names.head?, name ∈ c.references
  linked : names.IsChain e.Refers

/-- The condition leads to the last of the names twice, and to no other. -/
structure Circle (e : Engine) (c : Condition) (names : List String) : Prop extends
    e.Led c names where
  nodup : names.dropLast.Nodup
  closed : ∃ name ∈ names.dropLast, names.getLast? = some name

theorem Led.append {name name' : String} (h : e.Led c (names ++ [name]))
    (hrefers : e.Refers name name') : e.Led c (names ++ [name] ++ [name']) where
  first := by
    have hfirst := h.first
    simpa [List.head?_append] using hfirst
  linked := by
    refine List.isChain_append.2 ⟨h.linked, .singleton name', ?_⟩
    simpa using hrefers

/-- The chain of a call leads on to what its condition refers to. -/
theorem Reaches.led (h : e.Reaches c n chain c') {name : String} (hname : name ∈ c'.references) :
    e.Led c (chain ++ [name]) := by
  induction h generalizing name with
  | start => exact ⟨by simpa using hname, .singleton name⟩
  | call _ hcall ih =>
    cases hcall with
    | member hc => exact ih (references_subset_referencesAll hc hname)
    | negated => exact ih hname
    | @expansion r stored hnew hget =>
      rw [references_realize] at hname
      have hled : e.Led c (_ ++ [r.condition]) := ih (List.mem_singleton.2 rfl)
      exact hled.append ⟨stored, hget, hname⟩

theorem Reaches.circle {ref : Reference} (h : e.Reaches c n chain (.reference ref))
    (hmem : ref.condition ∈ chain) : e.Circle c (chain ++ [ref.condition]) where
  toLed := h.led (List.mem_singleton.2 rfl)
  nodup := by
    rw [List.dropLast_concat]
    exact h.expanding.nodup
  closed := ⟨ref.condition, by rwa [List.dropLast_concat], List.getLast?_concat⟩

/-- The name is one that the condition leads to. -/
def LeadsTo (e : Engine) (c : Condition) (name : String) : Prop :=
  ∃ first ∈ c.references, Relation.ReflTransGen e.Refers first name

/-- No name that the condition leads to leads back to itself. -/
def Acyclic (e : Engine) (c : Condition) : Prop :=
  ∀ name, e.LeadsTo c name → ¬ Relation.TransGen e.Refers name name

theorem Led.leadsTo {name : String} (h : e.Led c (names ++ [name])) : e.LeadsTo c name := by
  cases names with
  | nil => exact ⟨name, h.first name rfl, .refl⟩
  | cons first names =>
    refine ⟨first, h.first first rfl, ?_⟩
    exact List.relationReflTransGen_of_exists_isChain_cons (names ++ [name]) h.linked (by simp)

theorem Circle.not_acyclic (h : e.Circle c names) : ¬ e.Acyclic c := by
  obtain ⟨name, hmem, hlast⟩ := h.closed
  obtain ⟨before, between, hsplit⟩ := List.append_of_mem hmem
  have hnames : names = (before ++ [name]) ++ (between ++ [name]) := by
    have hwhole := List.dropLast_append_getLast? name hlast
    rw [hsplit] at hwhole
    rw [← hwhole]
    simp
  intro hacyclic
  have hled : e.Led c (before ++ [name]) := by
    refine ⟨fun first hfirst => h.first first ?_, ?_⟩
    · rw [hnames, List.head?_append]
      exact Option.or_eq_some_iff.2 (.inl hfirst)
    · exact (hnames ▸ h.linked).left_of_append
  refine hacyclic name hled.leadsTo ?_
  have hback : (name :: (between ++ [name])).IsChain e.Refers := by
    have hsuffix : (name :: (between ++ [name])) <:+ names := ⟨before, by rw [hnames]; simp⟩
    exact h.linked.suffix hsuffix
  cases between with
  | nil => exact .single (List.isChain_pair.1 hback)
  | cons next between =>
    refine .head' (List.rel_of_isChain_cons_cons hback) ?_
    exact List.relationReflTransGen_of_exists_isChain_cons (between ++ [name])
      hback.of_cons (by simp)

variable {σ : Type} {I : σ → Prop} {p : Provider σ}

/-- A rule fails for a circular reference only with names that it leads to: they lead from each to
the next one and in the end back to one of them. So it does not fail so where no name leads back to
itself, however often the names are referred to. And if evaluating the rule comes to a condition
that is being expanded around it, the rule fails. -/
theorem execute_circles (defaults : Bool) (calls : List Registry.Call)
    (hp : ∀ inquiry, Ensures I (fun _ => True)
      (fun fault => ∀ names, fault ≠ .circularReference names) (p.inquire inquiry))
    (e : Engine) (rule : Rule) (facts : σ) (hfacts : I facts) :
    let w : World σ := ⟨Registry.run defaults calls, facts⟩
    let outcome := ((e.execute p rule).run w).1
    (∀ names, outcome = .error (.circularReference names) →
        e.Circle rule.conditions names ∧
          (Fault.circularReference names).message =
            "条件引用存在循环: " ++ " -> ".intercalate names) ∧
      (e.Acyclic rule.conditions → ∀ names, outcome ≠ .error (.circularReference names)) ∧
      ∀ call ∈ e.trace p rule.conditions w, call.isCircular → ∃ fault, outcome = .error fault := by
  intro w outcome
  have hw : World.Extends (Registry.run defaults calls) I w :=
    ⟨(Registry.wellNamed_run defaults calls).coherent, rfl, hfacts⟩
  have hcircle (names : List String) (h : outcome = .error (.circularReference names)) :
      e.Circle rule.conditions names := by
    cases blamed_of_execute hp hw h with
    | provider hfault => exact absurd rfl (hfault names)
    | operator _ hresolve =>
      obtain hfault | ⟨part, hfault⟩ := Registry.unknown_of_resolve hresolve <;> cases hfault
    | circular hreaches hmem => exact hreaches.circle hmem
  refine ⟨fun names h => ⟨hcircle names h, rfl⟩, fun hacyclic names h => ?_, ?_⟩
  · exact (hcircle names h).not_acyclic hacyclic
  · intro call hcall hcircular
    obtain ⟨fault, hfault⟩ := exists_fault_of_circular hcall hcircular
    have hrun : (e.evaluate p [] rule.conditions).run w =
        (.error fault, ((e.evaluate p [] rule.conditions).run w).2) := Prod.ext hfault rfl
    exact ⟨fault, congrArg Prod.fst (run_bind_of_error hrun _)⟩

/-- What is open is not closed, and what is closed is open. -/
theorem execute_circles_open :
    let p : Provider Unit := .ofTable .empty
    let named (name : String) : Reference := ⟨name, none, none, .empty⟩
    let e : Engine :=
      ⟨.ofList [("open", .not ⟨1, none, .empty⟩ (.reference (named "closed"))),
        ("closed", .reference (named "open"))], {}⟩
    let rule : Rule := ⟨none, 1, .reference (named "open"), ⟨"enter", none⟩⟩
    let w : World Unit := ⟨Registry.run true [], ()⟩
    let outcome := ((e.execute p rule).run w).1
    let names := ["open", "closed", "open"]
    outcome = .error (.circularReference names) ∧ e.Circle rule.conditions names ∧
      ¬ e.Acyclic rule.conditions ∧ (∃ call ∈ e.trace p rule.conditions w, call.isCircular) ∧
      ∃ fault, outcome = .error fault := by
  intro p named e rule w outcome names
  have hp : ∀ inquiry, Ensures (fun _ => True) (fun _ => True)
      (fun fault => ∀ names, fault ≠ .circularReference names) (p.inquire inquiry) :=
    Provider.ensures_inquire (fun _ => rfl) fun _ _ _ _ => nofun
  obtain ⟨hcircle, hacyclic, hfails⟩ := execute_circles true [] hp e rule () trivial
  have hget : e.conditions.get? "open" =
      some (.not ⟨1, none, .empty⟩ (.reference (named "closed"))) :=
    (Table.get?_insert_of_ne _ (by decide) _).trans (Table.get?_insert_self .empty _ _)
  have hget' : e.conditions.get? "closed" = some (.reference (named "open")) :=
    Table.get?_insert_self _ _ _
  have hnew : (named "open").condition ∉ ([] : List String) := List.not_mem_nil
  have hnew' : (named "closed").condition ∉ ["open"] := by decide
  have hopen : e.evaluate p [] (.reference (named "open")) =
      e.evaluate p ["open"] (.not ⟨1, none, .empty⟩ (.reference (named "closed"))) :=
    evaluate_of_get? hnew hget
  have hclosed : e.evaluate p ["open"] (.reference (named "closed")) =
      e.evaluate p ["open", "closed"] (.reference (named "open")) :=
    evaluate_of_get? hnew' hget'
  have hagain : e.evaluate p ["open", "closed"] (.reference (named "open")) =
      .fail (.circularReference names) := evaluate_of_mem (by decide)
  have houtcome : outcome = .error (.circularReference names) := by
    simp only [outcome, execute, rule, hopen, evaluate, hclosed, hagain]
    rfl
  have htrace : (e.trace p rule.conditions w).any Call.isCircular := by decide +kernel
  obtain ⟨call, hcall, hcircular⟩ := List.any_eq_true.1 htrace
  exact ⟨houtcome, (hcircle names houtcome).1, fun h => hacyclic h names houtcome,
    ⟨call, hcall, hcircular⟩, hfails call hcall hcircular⟩

end Engine
end Verdict
