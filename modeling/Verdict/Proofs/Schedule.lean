import Verdict.Proofs.Action.Together
import Verdict.Schedule

/-!
# What scheduled tasks ensure

Either every task ran and gave the neutral verdict, or there is a last priority at which some
verdict was decisive: tasks of higher priority gave the neutral verdict, those of that priority
ran, and those of lower priority did not.
-/
namespace Verdict
open Verdict.Action

variable {σ α : Type} {I : σ → Prop} {E : Fault → Prop}

namespace Slot

/-- The task ran, gave the verdict and left a subject, both as `P` allows. -/
def Ran (P : Bool × α → Prop) (verdict : Bool) (slot : Slot σ α) : Prop :=
  ∃ a, slot = settled verdict a ∧ P (verdict, a)

theorem hasVerdict_iff {b : Bool} {slot : Slot σ α} :
    slot.hasVerdict b ↔ ∃ a, slot = settled b a := by
  cases slot <;> simp [hasVerdict]

theorem ensures_advance {P : Bool × α → Prop} {task : Task σ α} {p : Int64}
    (h : task.priority = p → Ensures I P E task.run)
    (slot : Slot σ α) (hslot : task.priority = p → slot = waiting task)
    (hrest : ∀ t, slot = waiting t → t = task) :
    Ensures I (fun slot' => (task.priority = p → ∃ verdict, slot'.Ran P verdict) ∧
      (task.priority ≠ p → slot' = slot)) E (slot.advance p) := by
  cases slot with
  | settled verdict a =>
    refine Ensures.pure (And.intro (fun hp => ?_) fun _ => rfl)
    cases hslot hp
  | waiting t =>
    obtain rfl := hrest t rfl
    by_cases hp : t.priority = p
    · simp only [advance, if_pos hp]
      exact (h hp).bind fun r hr =>
        Ensures.pure (And.intro (fun _ => ⟨r.1, r.2, rfl, hr⟩) fun hne => absurd hp hne)
    · simp only [advance, if_neg hp]
      exact Ensures.pure (And.intro (fun he => absurd he hp) fun _ => rfl)

end Slot

theorem pairwise_eraseDups {l : List Int64} (h : l.Pairwise (· ≥ ·)) :
    l.eraseDups.Pairwise (· > ·) := by
  induction hn : l.length using Nat.strongRecOn generalizing l with
  | ind n ih =>
    cases l with
    | nil => exact List.Pairwise.nil
    | cons p rest =>
      rw [List.eraseDups_cons]
      obtain ⟨hp, hrest⟩ := List.pairwise_cons.1 h
      have hlength := List.length_filter_le (fun q => !q == p) rest
      refine List.pairwise_cons.2 ⟨fun q hq => ?_, ?_⟩
      · rw [List.mem_eraseDups, List.mem_filter] at hq
        exact Int64.lt_of_le_of_ne (hp q hq.1) (by simpa using hq.2)
      · simp only [List.length_cons] at hn
        exact ih _ (by omega) (hrest.filter _) rfl

namespace Schedule
variable {neutral : Bool} {tasks : List (Task σ α)} {P : Nat → Bool × α → Prop}

theorem mem_priorities {p : Int64} : p ∈ priorities tasks ↔ ∃ t ∈ tasks, t.priority = p := by
  rw [priorities, List.mem_eraseDups, List.mem_mergeSort, List.mem_map]

theorem pairwise_priorities (tasks : List (Task σ α)) : (priorities tasks).Pairwise (· > ·) := by
  refine pairwise_eraseDups ((List.pairwise_mergeSort ?_ ?_ _).imp fun h => ?_)
  · intro p q r hpq hqr
    simp only [decide_eq_true_eq] at hpq hqr ⊢
    exact Int64.le_trans hqr hpq
  · intro p q
    simp only [Bool.or_eq_true, decide_eq_true_eq]
    exact Int64.le_total q p
  · simpa using h

theorem priorities_pair {t t' : Task σ α} (h : t.priority < t'.priority) :
    priorities [t, t'] = [t'.priority, t.priority] := by
  have hne : t.priority ≠ t'.priority := Int64.ne_of_lt h
  have hle : ¬ t'.priority ≤ t.priority := Int64.not_le.2 h
  simp [priorities, List.mergeSort, List.eraseDups_cons, hle, hne]

/-- The slots before the rounds of `ps`: tasks of these priorities wait, and all others gave the
neutral verdict. -/
structure Due (neutral : Bool) (tasks : List (Task σ α)) (P : Nat → Bool × α → Prop)
    (ps : List Int64) (slots : List (Slot σ α)) : Prop where
  length_eq : slots.length = tasks.length
  slot : ∀ {i : Nat} {task : Task σ α}, tasks[i]? = some task → ∃ slot, slots[i]? = some slot ∧
    (task.priority ∈ ps → slot = .waiting task) ∧ (task.priority ∉ ps → slot.Ran (P i) neutral)

/-- The slots after a round of priority `p` that decided against `neutral`. -/
structure Stopped (neutral : Bool) (tasks : List (Task σ α)) (P : Nat → Bool × α → Prop)
    (p : Int64) (slots : List (Slot σ α)) : Prop where
  length_eq : slots.length = tasks.length
  slot : ∀ {i : Nat} {task : Task σ α}, tasks[i]? = some task → ∃ slot, slots[i]? = some slot ∧
    (p < task.priority → slot.Ran (P i) neutral) ∧
    (task.priority = p → ∃ verdict, slot.Ran (P i) verdict) ∧
    (task.priority < p → slot = .waiting task)
  decisive : ∃ (i : Nat) (task : Task σ α) (slot : Slot σ α),
    tasks[i]? = some task ∧ task.priority = p ∧ slots[i]? = some slot ∧
    slot.Ran (P i) !neutral

/-- All tasks gave the neutral verdict, or a round decided against it. -/
def Finished (neutral : Bool) (tasks : List (Task σ α)) (P : Nat → Bool × α → Prop)
    (verdict : Bool) (slots : List (Slot σ α)) : Prop :=
  (verdict = neutral ∧ Due neutral tasks P [] slots) ∨
    (verdict = !neutral ∧ ∃ p, Stopped neutral tasks P p slots)

/-- The slots after the round of `p`, before those of `ps`. -/
structure Played (neutral : Bool) (tasks : List (Task σ α)) (P : Nat → Bool × α → Prop)
    (p : Int64) (ps : List Int64) (slots : List (Slot σ α)) : Prop where
  length_eq : slots.length = tasks.length
  slot : ∀ {i : Nat} {task : Task σ α}, tasks[i]? = some task → ∃ slot, slots[i]? = some slot ∧
    (task.priority ∈ ps → slot = .waiting task) ∧
    (task.priority = p → ∃ verdict, slot.Ran (P i) verdict) ∧
    (task.priority ∉ p :: ps → slot.Ran (P i) neutral)

theorem Due.ensures_advance {ps : List Int64} {slots : List (Slot σ α)} {i : Nat}
    {task : Task σ α} {slot : Slot σ α} (hslots : Due neutral tasks P ps slots) (p : Int64)
    (hp : p ∈ ps) (htask : tasks[i]? = some task) (hslot : slots[i]? = some slot)
    (hrun : task.priority = p → Ensures I (P i) E task.run) :
    Ensures I (fun slot' => (task.priority = p → ∃ verdict, slot'.Ran (P i) verdict) ∧
      (task.priority ≠ p → slot' = slot)) E (slot.advance p) := by
  obtain ⟨slot', hslot', hwaiting, hran⟩ := hslots.slot htask
  obtain rfl : slot' = slot := Option.some.inj (hslot'.symm.trans hslot)
  refine Slot.ensures_advance hrun slot' (fun he => hwaiting (he ▸ hp)) fun t ht => ?_
  by_cases hmem : task.priority ∈ ps
  · rw [hwaiting hmem] at ht
    cases ht
    rfl
  · obtain ⟨a, ha, -⟩ := hran hmem
    rw [ha] at ht
    cases ht

/-- One round: the tasks of its priority run, the other slots stay as they are. -/
theorem ensures_round {ps : List Int64} {slots : List (Slot σ α)} {p : Int64}
    (hrun : ∀ i task, tasks[i]? = some task → task.priority = p → Ensures I (P i) E task.run)
    (hslots : Due neutral tasks P (p :: ps) slots) (hp : p ∉ ps) (size : Nat) :
    Ensures I (Played neutral tasks P p ps) E (together size (slots.map (Slot.advance p))) := by
  have htogether := Ensures.together size (slots.map (Slot.advance p))
    (P := fun i slot' => ∀ {task slot}, tasks[i]? = some task → slots[i]? = some slot →
      (task.priority = p → ∃ verdict, slot'.Ran (P i) verdict) ∧
      (task.priority ≠ p → slot' = slot)) (I := I) (E := E) ?_
  · refine htogether.mono (fun slots' h => ?_) fun _ he => he
    have hlength : slots'.length = slots.length := h.1.trans (List.length_map _)
    refine ⟨hlength.trans hslots.length_eq, fun {i task} htask => ?_⟩
    obtain ⟨slot, hslot, hwaiting, hran⟩ := hslots.slot htask
    have hi : i < slots'.length := hlength ▸ (List.getElem?_eq_some_iff.1 hslot).1
    have hget := List.getElem?_eq_getElem hi
    obtain ⟨hself, hother⟩ := h.2 i _ hget htask hslot
    refine ⟨slots'[i], hget, fun hmem => ?_, hself, fun hmem => ?_⟩
    · rw [hother fun he => hp (he ▸ hmem), hwaiting (List.mem_cons_of_mem p hmem)]
    · rw [hother fun he => hmem (he ▸ List.mem_cons_self)]
      exact hran hmem
  · intro i x hx
    rw [List.getElem?_map, Option.map_eq_some_iff] at hx
    obtain ⟨slot, hslot, rfl⟩ := hx
    have hi : i < tasks.length := hslots.length_eq ▸ (List.getElem?_eq_some_iff.1 hslot).1
    have htask := List.getElem?_eq_getElem hi
    have hadvance := hslots.ensures_advance p List.mem_cons_self htask hslot (hrun i _ htask)
    refine hadvance.mono (fun slot' h {task' slot''} htask' hslot'' => ?_) fun _ he => he
    obtain rfl := Option.some.inj (htask.symm.trans htask')
    obtain rfl := Option.some.inj (hslot.symm.trans hslot'')
    exact h

/-- In the round of `p`, some task decided against `neutral`. -/
theorem Played.decisive {p : Int64} {ps : List Int64} {slots : List (Slot σ α)}
    (h : Played neutral tasks P p ps slots) (hany : slots.any (Slot.hasVerdict !neutral)) :
    ∃ (i : Nat) (task : Task σ α) (slot : Slot σ α),
      tasks[i]? = some task ∧ task.priority = p ∧ slots[i]? = some slot ∧
      slot.Ran (P i) !neutral := by
  obtain ⟨slot, hmem, hverdict⟩ := List.any_eq_true.1 hany
  obtain ⟨a, rfl⟩ := Slot.hasVerdict_iff.1 hverdict
  obtain ⟨i, hget⟩ := List.getElem?_of_mem hmem
  have hi : i < tasks.length := h.length_eq ▸ (List.getElem?_eq_some_iff.1 hget).1
  have htask := List.getElem?_eq_getElem hi
  obtain ⟨slot, hget', hwaiting, hself, hran⟩ := h.slot htask
  obtain rfl := Option.some.inj (hget.symm.trans hget')
  have hpriority : tasks[i].priority = p := by
    apply Classical.byContradiction
    intro hne
    by_cases hmem : tasks[i].priority ∈ ps
    · cases hwaiting hmem
    · obtain ⟨a', ha, -⟩ := hran (List.not_mem_cons_of_ne_of_not_mem hne hmem)
      simp at ha
  obtain ⟨verdict, a', ha, hP⟩ := hself hpriority
  cases ha
  exact ⟨i, tasks[i], _, htask, hpriority, hget, a, rfl, hP⟩

theorem Played.stopped {p : Int64} {ps : List Int64} {slots : List (Slot σ α)}
    (h : Played neutral tasks P p ps slots) (hp : ∀ q ∈ ps, q < p)
    (hlower : ∀ task ∈ tasks, task.priority ∉ p :: ps → p < task.priority)
    (hany : slots.any (Slot.hasVerdict !neutral)) : Stopped neutral tasks P p slots := by
  refine ⟨h.length_eq, fun {i task} htask => ?_, h.decisive hany⟩
  obtain ⟨slot, hget, hwaiting, hself, hran⟩ := h.slot htask
  refine ⟨slot, hget, fun hlt => hran fun hmem => ?_, hself, fun hlt => hwaiting ?_⟩
  · rcases List.mem_cons.1 hmem with he | hmem
    · exact Int64.lt_irrefl (he ▸ hlt)
    · exact Int64.lt_asymm hlt (hp _ hmem)
  · apply Classical.byContradiction
    intro hmem
    have hne : task.priority ≠ p := fun he => Int64.lt_irrefl (he ▸ hlt)
    exact Int64.lt_asymm hlt (hlower task (List.mem_of_getElem? htask)
      (List.not_mem_cons_of_ne_of_not_mem hne hmem))

theorem Played.due {p : Int64} {ps : List Int64} {slots : List (Slot σ α)}
    (h : Played neutral tasks P p ps slots) (hany : ¬ slots.any (Slot.hasVerdict !neutral)) :
    Due neutral tasks P ps slots := by
  refine ⟨h.length_eq, fun {i task} htask => ?_⟩
  obtain ⟨slot, hget, hwaiting, hself, hran⟩ := h.slot htask
  refine ⟨slot, hget, hwaiting, fun hmem => ?_⟩
  by_cases hp : task.priority = p
  · obtain ⟨verdict, a, rfl, hP⟩ := hself hp
    have hneutral : verdict = neutral := by
      apply Classical.byContradiction
      intro hne
      have hverdict : verdict = !neutral := Bool.eq_not_of_ne hne
      exact hany (List.any_eq_true.2
        ⟨_, List.mem_of_getElem? hget, Slot.hasVerdict_iff.2 ⟨a, by rw [hverdict]⟩⟩)
    exact hneutral ▸ ⟨a, rfl, hP⟩
  · exact hran (List.not_mem_cons_of_ne_of_not_mem hp hmem)

/-- Every task of higher priority may be neutral; else the task never runs. -/
def MayRun (neutral : Bool) (tasks : List (Task σ α)) (P : Nat → Bool × α → Prop)
    (task : Task σ α) : Prop :=
  ∀ (i : Nat) (above : Task σ α), tasks[i]? = some above → task.priority < above.priority →
    ∃ a, P i (neutral, a)

theorem Due.mayRun {p : Int64} {ps : List Int64} {slots : List (Slot σ α)}
    (h : Due neutral tasks P (p :: ps) slots) (hp : ∀ q ∈ ps, q < p) {task : Task σ α}
    (hpriority : task.priority = p) : MayRun neutral tasks P task := by
  intro i above habove hlt
  obtain ⟨slot, -, -, hran⟩ := h.slot habove
  have hnot : above.priority ∉ p :: ps := by
    intro hmem
    rw [hpriority] at hlt
    rcases List.mem_cons.1 hmem with he | hmem
    · exact Int64.lt_irrefl (he ▸ hlt)
    · exact Int64.lt_asymm hlt (hp _ hmem)
  obtain ⟨a, -, ha⟩ := hran hnot
  exact ⟨a, ha⟩

/-- The rounds in falling order of priority, where all tasks of others gave `neutral`. -/
theorem ensures_rounds {ps : List Int64} {slots : List (Slot σ α)}
    (hrun : ∀ i task, tasks[i]? = some task → MayRun neutral tasks P task →
      Ensures I (P i) E task.run)
    (hsorted : ps.Pairwise (· > ·)) (hslots : Due neutral tasks P ps slots)
    (hlower : ∀ task ∈ tasks, task.priority ∉ ps → ∀ p ∈ ps, p < task.priority) :
    Ensures I (fun r => Finished neutral tasks P r.1 r.2) E (rounds neutral ps slots) := by
  induction ps generalizing slots with
  | nil => exact Ensures.pure (.inl ⟨rfl, hslots⟩)
  | cons p ps ih =>
    obtain ⟨hp, hps⟩ := List.pairwise_cons.1 hsorted
    have hnot : p ∉ ps := fun hmem => Int64.lt_irrefl (hp p hmem)
    have hround (i : Nat) (task : Task σ α) (htask : tasks[i]? = some task)
        (hpriority : task.priority = p) : Ensures I (P i) E task.run :=
      hrun i task htask (hslots.mayRun hp hpriority)
    refine (ensures_round hround hslots hnot _).bind fun slots' hplayed => ?_
    by_cases hany : slots'.any (Slot.hasVerdict !neutral)
    · simp only [hany, ↓reduceIte]
      have hlower' (task : Task σ α) (htask : task ∈ tasks) (hmem : task.priority ∉ p :: ps) :
          p < task.priority := hlower task htask hmem p List.mem_cons_self
      exact Ensures.pure (.inr ⟨rfl, p, hplayed.stopped hp hlower' hany⟩)
    · simp only [hany]
      refine ih hps (hplayed.due hany) fun task htask hmem q hq => ?_
      by_cases he : task.priority = p
      · exact he ▸ hp q hq
      · exact hlower task htask (List.not_mem_cons_of_ne_of_not_mem he hmem) q
          (List.mem_cons_of_mem p hq)

/-- The rounds of all priorities, from the beginning. -/
theorem ensures_rounds_priorities
    (hrun : ∀ i task, tasks[i]? = some task → MayRun neutral tasks P task →
      Ensures I (P i) E task.run) :
    Ensures I (fun r => Finished neutral tasks P r.1 r.2) E
      (rounds neutral (priorities tasks) (tasks.map .waiting)) := by
  have hall (task : Task σ α) (h : task ∈ tasks) : task.priority ∈ priorities tasks :=
    mem_priorities.2 ⟨task, h, rfl⟩
  refine ensures_rounds hrun (pairwise_priorities tasks) ⟨List.length_map .., ?_⟩ ?_
  · intro i task htask
    refine ⟨.waiting task, by simp [htask], fun _ => rfl, fun hmem => ?_⟩
    exact absurd (hall task (List.mem_of_getElem? htask)) hmem
  · exact fun task h hmem => absurd (hall task h) hmem

/-- A schedule of tasks ensures what `Finished` says of its slots. -/
theorem ensures_run (hrun : ∀ i task, tasks[i]? = some task → MayRun neutral tasks P task →
      Ensures I (P i) E task.run) :
    Ensures I (fun r => ∃ slots, Finished neutral tasks P r.1 slots ∧ r.2 = slots.map (·.subject))
      E (run neutral tasks) :=
  (ensures_rounds_priorities hrun).bind fun r hr => Ensures.pure ⟨r.2, hr, rfl⟩

end Schedule

/-! What came of the tasks, apart from what they leave. -/

namespace Slot

def verdict? : Slot σ α → Option Bool
  | waiting _ => none
  | settled verdict _ => some verdict

theorem Ran.verdict?_eq {P : Bool × α → Prop} {verdict : Bool} {slot : Slot σ α}
    (h : slot.Ran P verdict) : slot.verdict? = some verdict := by
  obtain ⟨a, rfl, -⟩ := h
  rfl

end Slot

namespace Schedule
variable {neutral verdict : Bool} {tasks : List (Task σ α)} {P : Nat → Bool × α → Prop}
variable {slots : List (Slot σ α)} {p : Int64}

/-- Verdicts of tasks with these priorities, `none` for one that did not run: a task ran just if all
of higher priority did and were neutral, and the verdict on them is neutral if all are. -/
structure Course (neutral : Bool) (priorities : List Int64) (verdicts : List (Option Bool))
    (verdict : Bool) : Prop where
  length_eq : verdicts.length = priorities.length
  ran_iff : ∀ {i : Nat} {p : Int64} {v : Option Bool}, priorities[i]? = some p →
    verdicts[i]? = some v →
      (v.isSome ↔ ∀ (j : Nat) (q : Int64), priorities[j]? = some q → p < q →
        verdicts[j]? = some (some neutral))
  verdict_eq : (verdict = neutral ∧ ∀ v ∈ verdicts, v = some neutral) ∨
    (verdict = !neutral ∧ some (!neutral) ∈ verdicts)

theorem Finished.length_eq (h : Finished neutral tasks P verdict slots) :
    slots.length = tasks.length := by
  rcases h with ⟨-, hdue⟩ | ⟨-, p, hstopped⟩
  · exact hdue.length_eq
  · exact hstopped.length_eq

/-- In the end each task waits or ran. -/
theorem Finished.slot (h : Finished neutral tasks P verdict slots) {i : Nat} {task : Task σ α}
    (htask : tasks[i]? = some task) :
    ∃ slot, slots[i]? = some slot ∧ (slot = .waiting task ∨ ∃ b, slot.Ran (P i) b) := by
  rcases h with ⟨-, hdue⟩ | ⟨-, p, hstopped⟩
  · obtain ⟨slot, hslot, -, hran⟩ := hdue.slot htask
    exact ⟨slot, hslot, .inr ⟨neutral, hran List.not_mem_nil⟩⟩
  · obtain ⟨slot, hslot, habove, hat, hbelow⟩ := hstopped.slot htask
    refine ⟨slot, hslot, ?_⟩
    by_cases hlt : task.priority < p
    · exact .inl (hbelow hlt)
    · rcases Int64.le_iff_lt_or_eq.1 (Int64.not_lt.1 hlt) with hlt | he
      · exact .inr ⟨neutral, habove hlt⟩
      · exact .inr (hat he.symm)

theorem Due.verdict?_eq (h : Due neutral tasks P [] slots) {i : Nat} {slot : Slot σ α}
    (hslot : slots[i]? = some slot) : slot.verdict? = some neutral := by
  have hi : i < tasks.length := h.length_eq ▸ (List.getElem?_eq_some_iff.1 hslot).1
  obtain ⟨slot', hslot', -, hran⟩ := h.slot (List.getElem?_eq_getElem hi)
  rw [Option.some.inj (hslot.symm.trans hslot')]
  exact (hran List.not_mem_nil).verdict?_eq

theorem Due.course (h : Due neutral tasks P [] slots) :
    Course neutral (tasks.map (·.priority)) (slots.map Slot.verdict?) neutral := by
  refine ⟨by simp [h.length_eq], fun {i p v} _ hv => ?_, .inl ⟨rfl, fun v hv => ?_⟩⟩
  · rw [List.getElem?_map, Option.map_eq_some_iff] at hv
    obtain ⟨slot, hslot, rfl⟩ := hv
    rw [h.verdict?_eq hslot]
    refine ⟨fun _ j q hq _ => ?_, fun _ => rfl⟩
    have hj : j < slots.length := by
      have := (List.getElem?_eq_some_iff.1 hq).1
      rwa [List.length_map, ← h.length_eq] at this
    have hslot' := List.getElem?_eq_getElem hj
    rw [List.getElem?_map, hslot', Option.map_some, h.verdict?_eq hslot']
  · obtain ⟨slot, hmem, rfl⟩ := List.mem_map.1 hv
    obtain ⟨i, hslot⟩ := List.getElem?_of_mem hmem
    exact h.verdict?_eq hslot

theorem Stopped.course (h : Stopped neutral tasks P p slots) :
    Course neutral (tasks.map (·.priority)) (slots.map Slot.verdict?) !neutral := by
  obtain ⟨k, decisive, slot, hdecisive, hp, hslot, hran⟩ := h.decisive
  have hk : (slots.map Slot.verdict?)[k]? = some (some !neutral) := by
    rw [List.getElem?_map, hslot, Option.map_some, hran.verdict?_eq]
  refine ⟨by simp [h.length_eq], fun {i q v} hq hv => ?_, .inr ⟨rfl, List.mem_of_getElem? hk⟩⟩
  rw [List.getElem?_map, Option.map_eq_some_iff] at hq hv
  obtain ⟨task, htask, rfl⟩ := hq
  obtain ⟨slot', hslot', rfl⟩ := hv
  obtain ⟨slot'', hslot'', habove, hat, hbelow⟩ := h.slot htask
  obtain rfl := Option.some.inj (hslot'.symm.trans hslot'')
  by_cases hlt : task.priority < p
  · -- it did not run, and the decisive task has a higher priority
    refine ⟨fun hran => ?_, fun hneutral => ?_⟩
    · rw [hbelow hlt] at hran
      cases hran
    · have hdecided := hneutral k decisive.priority (by simp [hdecisive]) (hp ▸ hlt)
      rw [hk] at hdecided
      simp at hdecided
  · have hle : p ≤ task.priority := Int64.not_lt.1 hlt
    have hran : slot'.verdict?.isSome := by
      rcases Int64.le_iff_lt_or_eq.1 hle with hlt | he
      · rw [(habove hlt).verdict?_eq]
        rfl
      · obtain ⟨b, hb⟩ := hat he.symm
        rw [hb.verdict?_eq]
        rfl
    refine ⟨fun _ j q hq hltq => ?_, fun _ => hran⟩
    rw [List.getElem?_map, Option.map_eq_some_iff] at hq
    obtain ⟨task', htask', rfl⟩ := hq
    obtain ⟨slot'', hslot'', habove', -, -⟩ := h.slot htask'
    rw [List.getElem?_map, hslot'', Option.map_some,
      (habove' (Int64.lt_of_le_of_lt hle hltq)).verdict?_eq]

theorem Finished.course (h : Finished neutral tasks P verdict slots) :
    Course neutral (tasks.map (·.priority)) (slots.map Slot.verdict?) verdict := by
  rcases h with ⟨rfl, hdue⟩ | ⟨rfl, p, hstopped⟩
  · exact hdue.course
  · exact hstopped.course

end Schedule
end Verdict
