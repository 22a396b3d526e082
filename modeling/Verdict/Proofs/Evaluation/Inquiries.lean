import Verdict.Proofs.Action.Bills
import Verdict.Proofs.Schedule
import Verdict.Evaluation

/-!
# What evaluating asks

A schedule costs what its tasks cost that run. A provider is metered if each inquiry moves the meter
by its cost; then so does a comparison, by its value and its fact, and an event by its parameters.
-/
namespace Verdict
open Verdict.Action Verdict.Condition

section Schedules
variable {σ α : Type} {I : σ → Prop} {meter : σ → Nat} {Q : Nat → Bool × α → Nat → Prop}

/-- The slot stays as it is and costs nothing, or its task runs for an amount that `Q` allows. -/
def Slot.Spent (Q : Bool × α → Nat → Prop) (slot slot' : Slot σ α) (d : Nat) : Prop :=
  (slot' = slot ∧ d = 0) ∨
    ∃ task verdict a, slot = waiting task ∧ slot' = settled verdict a ∧ Q (verdict, a) d

theorem Slot.Spent.trans {Q : Bool × α → Nat → Prop} {slot slot' slot'' : Slot σ α} {d d' : Nat}
    (h : Spent Q slot slot' d) (h' : Spent Q slot' slot'' d') : Spent Q slot slot'' (d + d') := by
  obtain ⟨rfl, rfl⟩ | ⟨task, verdict, a, rfl, rfl, hQ⟩ := h
  · rwa [Nat.zero_add]
  · obtain ⟨rfl, rfl⟩ | ⟨_, _, _, hwaiting, -⟩ := h'
    · exact .inr ⟨task, verdict, a, rfl, rfl, hQ⟩
    · cases hwaiting

theorem Slot.costs_advance {Q : Bool × α → Nat → Prop} (p : Int64) {slot : Slot σ α}
    (h : ∀ task, slot = waiting task → CostsFrom I meter Q task.run 0) :
    CostsFrom I meter (Spent Q slot) (slot.advance p) 0 := by
  cases slot with
  | settled verdict a => exact costsFrom_pure (.inl ⟨rfl, rfl⟩)
  | waiting task =>
    by_cases hp : task.priority = p
    · simp only [advance, if_pos hp]
      exact (h task rfl).bind fun v d hQ =>
        costsFrom_pure (.inr ⟨task, v.1, v.2, rfl, rfl, hQ⟩)
    · simp only [advance, if_neg hp]
      exact costsFrom_pure (.inl ⟨rfl, rfl⟩)

namespace Schedule

/-- What becomes of the slots, and what it costs. -/
def SlotsSpent (Q : Nat → Bool × α → Nat → Prop) (slots : List (Slot σ α)) :
    List (Slot σ α) → Nat → Prop :=
  EachCosts (fun i slot' d => ∀ slot, slots[i]? = some slot → Slot.Spent (Q i) slot slot' d)
    slots.length

theorem slotsSpent_refl (slots : List (Slot σ α)) : SlotsSpent Q slots slots 0 := by
  refine ⟨rfl, fun _ => 0, (total_zero _).symm, fun i slot hslot slot' hslot' => ?_⟩
  exact .inl ⟨Option.some.inj (hslot.symm.trans hslot'), rfl⟩

theorem SlotsSpent.trans {slots slots' slots'' : List (Slot σ α)} {d d' : Nat}
    (h : SlotsSpent Q slots slots' d) (h' : SlotsSpent Q slots' slots'' d') :
    SlotsSpent Q slots slots'' (d + d') := by
  obtain ⟨hlength, bills, rfl, hspent⟩ := h
  obtain ⟨hlength', bills', rfl, hspent'⟩ := h'
  refine ⟨hlength'.trans hlength, fun i => bills i + bills' i, ?_, fun i slot'' h'' slot h => ?_⟩
  · rw [hlength, total_add]
  · have hi : i < slots'.length := hlength' ▸ (List.getElem?_eq_some_iff.1 h'').1
    have hslot' := List.getElem?_eq_getElem hi
    exact (hspent i _ hslot' slot h).trans (hspent' i slot'' h'' _ hslot')

/-- A task that still waits has waited from the beginning. -/
theorem SlotsSpent.waiting {slots slots' : List (Slot σ α)} {d i : Nat} {task : Task σ α}
    (h : SlotsSpent Q slots slots' d) (hi : slots'[i]? = some (.waiting task)) :
    slots[i]? = some (.waiting task) := by
  obtain ⟨hlength, bills, -, hspent⟩ := h
  have hlt : i < slots.length := hlength ▸ (List.getElem?_eq_some_iff.1 hi).1
  have hslot := List.getElem?_eq_getElem hlt
  obtain ⟨he, -⟩ | ⟨_, _, _, -, hsettled, -⟩ := hspent i _ hi _ hslot
  · rwa [he]
  · cases hsettled

theorem costs_rounds (neutral : Bool) (ps : List Int64) {slots : List (Slot σ α)}
    (h : ∀ i task, slots[i]? = some (.waiting task) → CostsFrom I meter (Q i) task.run 0) :
    CostsFrom I meter (fun r d => SlotsSpent Q slots r.2 d) (rounds neutral ps slots) 0 := by
  induction ps generalizing slots with
  | nil => exact costsFrom_pure (slotsSpent_refl slots)
  | cons p ps ih =>
    have hround : CostsFrom I meter (SlotsSpent Q slots)
        (together (slots.countP (Slot.isIn p)) (slots.map (Slot.advance p))) 0 := by
      refine CostsFrom.together _ fun i slot hslot => ?_
      have hadvance := Slot.costs_advance (Q := Q i) p fun task htask => h i task (htask ▸ hslot)
      refine hadvance.mono fun slot' d hspent slot'' h'' => ?_
      exact Option.some.inj (hslot.symm.trans h'') ▸ hspent
    refine hround.bind fun slots' d hslots' => ?_
    split
    · exact costsFrom_pure hslots'
    · have hrest := ih fun i task htask => h i task (hslots'.waiting htask)
      refine (hrest.after d).mono ?_
      rintro r _ ⟨d', rfl, hr⟩
      exact hslots'.trans hr

/-- A schedule costs what its tasks cost that run, and these are the ones that `Finished` says. -/
theorem costs_run (neutral : Bool) {tasks : List (Task σ α)}
    (h : ∀ i task, tasks[i]? = some task → CostsFrom I meter (Q i) task.run 0) :
    CostsFrom I meter (fun r d => ∃ slots, r.2 = slots.map (·.subject) ∧
        Finished neutral tasks (fun _ _ => True) r.1 slots ∧
        SlotsSpent Q (tasks.map .waiting) slots d) (run neutral tasks) 0 := by
  have hrounds : CostsFrom I meter
      (fun r d => SlotsSpent Q (tasks.map .waiting) r.2 d ∧
        Finished neutral tasks (fun _ _ => True) r.1 r.2)
      (rounds neutral (priorities tasks) (tasks.map .waiting)) 0 := by
    have hwaiting (i : Nat) (task : Task σ α)
        (htask : (tasks.map Slot.waiting)[i]? = some (.waiting task)) :
        CostsFrom I meter (Q i) task.run 0 := by
      rw [List.getElem?_map, Option.map_eq_some_iff] at htask
      obtain ⟨task', htask', he⟩ := htask
      cases he
      exact h i task htask'
    have hends : Ensures (fun _ => True) (fun r => Finished neutral tasks (fun _ _ => True) r.1 r.2)
        (fun _ => True) (rounds neutral (priorities tasks) (tasks.map .waiting)) :=
      ensures_rounds_priorities fun _ task _ _ => ensures_true task.run
    exact fun s hs => (costs_rounds neutral _ hwaiting s hs).and hends hs fun _ _ => True.intro
  exact hrounds.bind fun r d hr => costsFrom_pure ⟨r.2, rfl, hr.2, hr.1⟩

end Schedule
end Schedules

/-- What evaluating asks of a provider. -/
inductive Inquiry where
  | value (v : Json)
  | factValue (id : String) (params : Json) (path : Option String)

namespace Provider
variable {σ : Type}

def inquire (p : Provider σ) : Inquiry → Action σ Json
  | .value v => p.value v
  | .factValue id params path => p.factValue id params path

/-- Every inquiry moves the meter by its cost, and keeps the state within `I`. -/
def Metered (p : Provider σ) (I : σ → Prop) (meter : σ → Nat) (cost : Inquiry → Nat) : Prop :=
  ∀ inquiry, CostsFrom I meter (fun _ d => d = cost inquiry) (p.inquire inquiry) 0

/-- The provider with a counter beside its state, to which each inquiry adds its cost. -/
def counted (p : Provider σ) (cost : Inquiry → Nat) : Provider (σ × Nat) where
  factValue id params path := do
    .modify fun s => (s.1, s.2 + cost (.factValue id params path))
    (p.factValue id params path).onPart Prod.fst fun s t => (s, t.2)
  value v := do
    .modify fun s => (s.1, s.2 + cost (.value v))
    (p.value v).onPart Prod.fst fun s t => (s, t.2)
  factPriority s := p.factPriority s.1

variable {p : Provider σ} {I : σ → Prop} {meter : σ → Nat} {cost : Inquiry → Nat}

/-- What holds of the answers about facts holds of all, where values refer to facts as usual. -/
theorem ensures_inquire {E : Fault → Prop}
    (hvalue : ∀ v, p.value v = match FactReference.ofJson? v with
      | some r => p.factValue r.id r.params r.path
      | none => pure v)
    (hfact : ∀ id params path, Ensures I (fun _ => True) E (p.factValue id params path))
    (inquiry : Inquiry) : Ensures I (fun _ => True) E (p.inquire inquiry) := by
  cases inquiry with
  | factValue id params path => exact hfact id params path
  | value v =>
    rw [inquire, hvalue]
    cases FactReference.ofJson? v with
    | some r => exact hfact r.id r.params r.path
    | none => exact Ensures.pure True.intro

/-- Any provider is metered, by a meter that stands still. -/
theorem metered_still
    (h : ∀ inquiry, Ensures I (fun _ => True) (fun _ => True) (p.inquire inquiry)) :
    p.Metered I (fun _ => 0) fun _ => 0 := by
  intro inquiry s hs
  exact (h inquiry).costs_still hs

/-- Any provider with a counter is metered by it. -/
theorem metered_counted
    (h : ∀ inquiry, Ensures I (fun _ => True) (fun _ => True) (p.inquire inquiry))
    (cost : Inquiry → Nat) : (p.counted cost).Metered (fun s => I s.1) (·.2) cost := by
  intro inquiry s hs
  have hcounted : (p.counted cost).inquire inquiry = (do
      .modify fun s => (s.1, s.2 + cost inquiry)
      (p.inquire inquiry).onPart Prod.fst fun s t => (s, t.2)) := by
    cases inquiry <;> rfl
  rw [hcounted]
  have hrest : Costs (fun s => I s.1) (·.2) (fun _ d => d = cost inquiry)
      ((p.inquire inquiry).onPart Prod.fst fun s t => (s, t.2))
      (s.1, s.2 + cost inquiry) (cost inquiry) :=
    (h inquiry).costs_onPart hs (fun _ _ => rfl) fun _ _ => rfl
  refine ⟨hs, cost inquiry, rfl, ?_⟩
  rw [Nat.zero_add]
  exact hrest

end Provider

namespace World
variable {σ α : Type} {I : σ → Prop} {meter : σ → Nat} {Q : α → Nat → Prop} {x : Action σ α}

/-- What an action costs by a meter on the facts. -/
abbrev Spends (I : σ → Prop) (meter : σ → Nat) (Q : α → Nat → Prop)
    (x : Action (World σ) α) : Prop :=
  CostsFrom (fun w => I w.facts) (fun w => meter w.facts) Q x 0

theorem spends_onFacts (h : CostsFrom I meter Q x 0) : Spends I meter Q (onFacts x) :=
  fun w hw => Costs.onPart (h w.facts hw) hw (fun _ h => h) (fun _ _ _ h => h) fun _ _ => rfl

theorem spends_operator (name : String) :
    Spends I meter (fun _ d => d = 0) (operator (σ := σ) name) :=
  fun _ hw => ⟨hw, 0, rfl, fun _ _ => rfl⟩

end World

/-- What making a comparison asks of the provider. -/
def Condition.Leaf.inquiries (l : Leaf) : List Inquiry :=
  [.value l.value, .factValue l.fact (l.params.getD .null) l.path]

/-- What asking all that costs. -/
def Inquiry.costs (cost : Inquiry → Nat) (inquiries : List Inquiry) : Nat :=
  (inquiries.map cost).sum

/-- What making the comparisons costs. -/
def Condition.Leaf.costs (cost : Inquiry → Nat) (made : List Leaf) : Nat :=
  Inquiry.costs cost (made.flatMap Leaf.inquiries)

theorem Inquiry.costs_append (cost : Inquiry → Nat) (l l' : List Inquiry) :
    Inquiry.costs cost (l ++ l') = Inquiry.costs cost l + Inquiry.costs cost l' := by
  simp [Inquiry.costs]

/-- The comparisons of the parts are paid for by the bills of the parts. -/
theorem Condition.Leaf.costs_flatMap_range (cost : Inquiry → Nat) (part : Nat → List Leaf)
    (n : Nat) :
    Leaf.costs cost ((List.range n).flatMap part) =
      total (fun i => Leaf.costs cost (part i)) n := by
  induction n with
  | zero => rfl
  | succ n ih =>
    rw [total_succ, ← ih, List.range_succ, List.flatMap_append, List.flatMap_singleton, costs,
      List.flatMap_append, Inquiry.costs_append]
    rfl

/-- What putting facts into an event asks of the provider. -/
def Event.inquiries (event : Event) : List Inquiry :=
  (event.params.getD .empty).entries.map fun entry => .value entry.2

section
variable {σ : Type} {I : σ → Prop} {meter : σ → Nat} {cost : Inquiry → Nat} {p : Provider σ}

theorem Condition.Leaf.spends_observe (hp : p.Metered I meter cost) (l : Leaf) :
    World.Spends I meter (fun o d => d = Leaf.costs cost [l.record o]) (l.observe p) := by
  refine (World.spends_operator l.operator).bind fun o _ hd => ?_
  rw [hd]
  have hvalue := hp (.value l.value)
  have hfact := hp (.factValue l.fact (l.params.getD .null) l.path)
  refine (World.spends_onFacts (hvalue.pair hfact)).bind ?_
  rintro seen _ ⟨d, d', rfl, rfl, rfl⟩
  refine costsFrom_pure ?_
  simp [Leaf.costs, Leaf.inquiries, Inquiry.costs, Leaf.record]

theorem Report.costs_resolveParams (hp : p.Metered I meter cost) (report : Report) :
    CostsFrom I meter (fun _ d => d = Inquiry.costs cost report.event.inquiries)
      (report.resolveParams p) 0 := by
  unfold resolveParams
  cases hparams : report.event.params with
  | none =>
    refine costsFrom_pure ?_
    rw [Event.inquiries, hparams]
    rfl
  | some params =>
    have hentries (i : Nat) (entry : String × Json) (hentry : params.entries[i]? = some entry) :
        CostsFrom I meter
          (fun _ d => ∀ entry, params.entries[i]? = some entry → d = cost (.value entry.2))
          (do return (entry.1, ← p.value entry.2)) 0 := by
      refine CostsFrom.bind (hp (.value entry.2)) fun v d hd => costsFrom_pure ?_
      intro entry' hentry'
      rw [hd, Option.some.inj (hentry.symm.trans hentry')]
    refine (CostsFrom.together params.size hentries).bind ?_
    rintro resolved _ ⟨hlength, bills, rfl, hbills⟩
    refine costsFrom_pure ?_
    have hinquiries : report.event.inquiries = params.entries.map fun entry => .value entry.2 := by
      rw [Event.inquiries, hparams, Option.getD_some]
    rw [hinquiries, Inquiry.costs, List.map_map]
    refine congrArg List.sum (List.ext_getElem (by simp) fun i hi hi' => ?_)
    rw [List.length_map] at hi'
    rw [List.getElem_map, List.getElem_map, List.getElem_range]
    exact hbills i _ (List.getElem?_eq_getElem (hlength ▸ hi')) _ (List.getElem?_eq_getElem hi')

end

end Verdict
