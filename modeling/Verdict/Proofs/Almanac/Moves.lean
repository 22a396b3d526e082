import Verdict.Almanac
import Verdict.Proofs.Action.Moments

/-!
# Moves of a consultation

Answering a request leads from moment to moment: a computation is begun, or one for a key starts or
is over. No move changes or deletes a value that is kept, and each value that comes in is that of a
computation that succeeded.
-/
namespace Verdict
open Verdict.Action

namespace Consultation

def kept? (c : Consultation) (key : String) : Option Json := c.almanac.cache.get? key

/-- One more computation of the fact is begun. -/
def count (id : String) (c : Consultation) : Consultation :=
  { c with almanac := { c.almanac with
    calls := c.almanac.calls.insert id (c.almanac.callsOf id + 1) } }

/-- What may happen from one moment to the next. -/
inductive Move (c : Consultation) : Consultation → Prop
  | stay : Move c c
  | register (f : Fact) (hnew : c.almanac.facts.get? f.id = none) :
      Move c { c with almanac := c.almanac.addFact f }
  | count (id : String) : Move c (c.count id)
  /-- A key of which nothing is kept is computed, for a fact that lets its values be kept. -/
  | start {id key : String} {f : Fact} {params : Json}
      (hget : c.almanac.facts.get? id = some f) (hkey : c.almanac.keyOf? f params = some key)
      (hidle : key ∉ c.underway) (hnone : c.kept? key = none) : Move c (c.start key)
  | finish {key : String} (r : Except Fault Json) (hunderway : key ∈ c.underway)
      (hnone : c.kept? key = none) : Move c (c.finish key r)

/-- Each key is computed once at a time, and nothing is kept of it until then. -/
structure Sound (c : Consultation) : Prop where
  nodup : c.underway.Nodup
  kept?_eq : ∀ {key}, key ∈ c.underway → c.kept? key = none

variable {c c' : Consultation}

theorem sound_idle (a : Almanac) : Sound { almanac := a } := ⟨List.nodup_nil, nofun⟩

theorem finish_ok_kept? (c : Consultation) (key key' : String) (v : Json) :
    (c.finish key (.ok v)).kept? key' = if key' = key then some v else c.kept? key' :=
  Table.get?_insert c.almanac.cache key' key v

theorem addFact_cache {a : Almanac} {f : Fact} (hnew : a.facts.get? f.id = none) :
    (a.addFact f).cache = a.cache := by
  simp [Almanac.addFact, Table.contains, hnew]

/-- What is kept of a key after its computation is the value that this gave. -/
theorem finish_kept?_self (r : Except Fault Json) {key : String} (hnone : c.kept? key = none) :
    (c.finish key r).kept? key = r.toOption := by
  cases r with
  | ok v => exact (finish_ok_kept? c key key v).trans (if_pos rfl)
  | error e => exact hnone

/-- A move changes and deletes no value that is kept. -/
theorem Move.kept?_eq (h : c.Move c') {key : String} {v : Json} (hv : c.kept? key = some v) :
    c'.kept? key = some v := by
  cases h with
  | stay => exact hv
  | register f hnew =>
    change (c.almanac.addFact f).cache.get? key = some v
    rw [addFact_cache hnew]
    exact hv
  | count id => exact hv
  | start => exact hv
  | @finish key' r _ hnone =>
    cases r with
    | error e => exact hv
    | ok w =>
      have hne : key ≠ key' := by
        rintro rfl
        cases hnone.symm.trans hv
      rwa [finish_ok_kept?, if_neg hne]

theorem Move.sound (hc : c.Sound) (h : c.Move c') : c'.Sound := by
  cases h with
  | stay => exact hc
  | register f hnew =>
    refine ⟨hc.nodup, fun hkey => ?_⟩
    change (c.almanac.addFact f).cache.get? _ = none
    rw [addFact_cache hnew]
    exact hc.kept?_eq hkey
  | count id => exact ⟨hc.nodup, hc.kept?_eq⟩
  | @start _ key _ _ _ _ hidle hnone =>
    refine ⟨List.nodup_cons.2 ⟨hidle, hc.nodup⟩, fun hkey => ?_⟩
    rcases List.mem_cons.1 hkey with rfl | hkey
    · exact hnone
    · exact hc.kept?_eq hkey
  | @finish key r hunderway hnone =>
    refine ⟨hc.nodup.erase key, fun {key'} hkey' => ?_⟩
    obtain ⟨hne, hmem⟩ := (List.Nodup.mem_erase_iff hc.nodup).1 hkey'
    cases r with
    | error e => exact hc.kept?_eq hmem
    | ok v =>
      rw [finish_ok_kept?, if_neg hne]
      exact hc.kept?_eq hmem

/-- The keys whose computation is over between two moments, with the value that is kept of them
then. -/
def completed (c c' : Consultation) : List (String × Option Json) :=
  (c.underway.filter fun key => !c'.isUnderway key).map fun key => (key, c'.kept? key)

/-- The computations that come to an end along the way, those that failed without a value. -/
def completions : Consultation → List Consultation → List (String × Option Json)
  | _, [] => []
  | c, c' :: way => completed c c' ++ completions c' way

/-- Is it a computation of the key that gave a value? -/
def isSuccess (key : String) (completion : String × Option Json) : Bool :=
  completion.1 == key && completion.2.isSome

theorem completed_eq_nil (h : ∀ key ∈ c.underway, key ∈ c'.underway) : completed c c' = [] := by
  have hnone : c.underway.filter (fun key => !c'.isUnderway key) = [] :=
    List.filter_eq_nil_iff.2 fun key hkey => by simp [isUnderway, h key hkey]
  rw [completed, hnone, List.map_nil]

theorem completed_finish (hc : c.Sound) {key : String} (hunderway : key ∈ c.underway)
    (r : Except Fault Json) :
    completed c (c.finish key r) = [(key, (c.finish key r).kept? key)] := by
  have hover : c.underway.filter (fun key' => !(c.finish key r).isUnderway key') =
      c.underway.filter (· == key) := by
    refine List.filter_congr fun key' hkey' => ?_
    change (!(c.underway.erase key).contains key') = (key' == key)
    by_cases he : key' = key
    · simp [he, List.Nodup.mem_erase_iff hc.nodup]
    · simp [he, List.Nodup.mem_erase_iff hc.nodup, hkey']
  rw [completed, hover, List.filter_beq, hc.nodup.count, if_pos hunderway]
  rfl

/-- Of a key as much is kept after a move as before, and what a computation gave meanwhile. -/
theorem Move.countP_completed (hc : c.Sound) (h : c.Move c') (key : String) :
    (completed c c').countP (isSuccess key) + (c.kept? key).toList.length =
      (c'.kept? key).toList.length := by
  cases h with
  | stay =>
    rw [completed_eq_nil fun _ h => h]
    exact Nat.zero_add _
  | register f hnew =>
    have hnil : completed c { c with almanac := c.almanac.addFact f } = [] :=
      completed_eq_nil fun _ h => h
    rw [hnil, kept?, kept?, addFact_cache hnew]
    exact Nat.zero_add _
  | count id =>
    have hnil : completed c (c.count id) = [] := completed_eq_nil fun _ h => h
    rw [hnil]
    exact Nat.zero_add _
  | start =>
    rw [completed_eq_nil fun _ h => List.mem_cons_of_mem _ h]
    exact Nat.zero_add _
  | @finish key' r hunderway hnone =>
    rw [completed_finish hc hunderway, List.countP_singleton, isSuccess]
    by_cases he : key' = key
    · subst he
      cases h : (c.finish key' r).kept? key' <;> simp [hnone]
    · have hother : (c.finish key' r).kept? key = c.kept? key := by
        cases r with
        | error e => rfl
        | ok v => rw [finish_ok_kept?, if_neg (Ne.symm he)]
      simp [he, hother]

variable {way : List Consultation}

/-- Whatever is kept at the end was kept at first, or else one computation succeeded. -/
theorem countP_completions (h : Leads Move c way c') (hc : c.Sound) (key : String) :
    (c.completions way).countP (isSuccess key) + (c.kept? key).toList.length =
      (c'.kept? key).toList.length := by
  induction h with
  | nil => exact Nat.zero_add _
  | @cons c c₁ c' way hstep _ ih =>
    rw [completions, List.countP_append, Nat.add_right_comm, hstep.countP_completed hc key,
      Nat.add_comm]
    exact ih (hstep.sound hc)

/-- A value that a computation gave along the way is kept at the end. -/
theorem kept?_of_mem_completions (h : Leads Move c way c') {key : String} {v : Json}
    (hmem : (key, some v) ∈ c.completions way) : c'.kept? key = some v := by
  induction h with
  | nil => cases hmem
  | @cons c c₁ c' way _ hrest ih =>
    rcases List.mem_append.1 hmem with hmem | hmem
    · obtain ⟨key', -, hkey'⟩ := List.mem_map.1 hmem
      obtain ⟨rfl, hv⟩ := Prod.mk.inj hkey'
      exact hrest.holds (J := fun c => c.kept? key' = some v) hv fun hv hstep => hstep.kept?_eq hv
    · exact ih hmem

theorem pairwise_kept (h : Leads Move c way c') :
    (c :: way).Pairwise fun c c' => ∀ key v, c.kept? key = some v → c'.kept? key = some v := by
  induction h with
  | nil => exact List.pairwise_singleton _ _
  | @cons c c₁ c' way hstep hrest ih =>
    refine List.pairwise_cons.2 ⟨fun c₂ hc₂ key v hv => ?_, ih⟩
    exact hrest.forall_mem (J := fun c => c.kept? key = some v) (hstep.kept?_eq hv)
      (fun hv hstep => hstep.kept?_eq hv) c₂ hc₂

end Consultation

/-! What a request does, moment by moment. -/

namespace Almanac
open Consultation

variable {α β : Type} {c : Consultation}

/-- Unless it is blocked, the action leads from the consultation by moves, and leaves the same keys
underway. -/
def Tidy (c : Consultation) (x : Action Consultation α) : Prop :=
  c.Sound → x.unblocked c →
    Leads Move c (x.moments c) (x.run c).2 ∧ (x.run c).2.underway = c.underway

theorem tidy_done (c : Consultation) (r : Except Fault α) : Tidy c (.done r) :=
  fun _ _ => ⟨.nil, rfl⟩

theorem Tidy.of_agree {x y : Action Consultation α} (h : Tidy c y) (hagree : AgreeFrom c x y) :
    Tidy c x := by
  intro hc hfree
  rw [hagree.unblocked_eq] at hfree
  rw [hagree.moments_eq, hagree.run_eq]
  exact h hc hfree

theorem Tidy.andThen {x : Action Consultation α} {k : Except Fault α → Action Consultation β}
    (h : Tidy c x) (hk : ∀ r c', Tidy c' (k r)) : Tidy c (x.andThen k) := by
  intro hc hfree
  rw [unblocked_andThen, Bool.and_eq_true] at hfree
  obtain ⟨hleads, hunderway⟩ := h hc hfree.1
  obtain ⟨hleads', hunderway'⟩ := hk (x.run c).1 (x.run c).2
    (hleads.holds hc fun hc h => h.sound hc) hfree.2
  rw [moments_andThen, run_andThen]
  exact ⟨hleads.append hleads', hunderway'.trans hunderway⟩

theorem tidy_run {answer : String → Json → Option String → Action Consultation Json}
    (h : ∀ c id params path, Tidy c (answer id params path)) (computation : Computation)
    (c : Consultation) : Tidy c (computation.run answer) := by
  induction computation generalizing c with
  | done r => exact tidy_done c r
  | ask id params path next ih => exact (h c id params path).andThen fun r c' => ih r c'
  | pause next ih => exact ih c

theorem tidy_calculate {answer : String → Json → Option String → Action Consultation Json}
    (h : ∀ c id params path, Tidy c (answer id params path)) (f : Fact) (params : Json)
    (c : Consultation) : Tidy c (calculate answer f params) := by
  unfold calculate
  split
  · exact tidy_done c _
  · rename_i compute hsource
    intro hc hfree
    have hmove : c.Move (c.count f.id) := .count f.id
    obtain ⟨hleads, hunderway⟩ :=
      tidy_run h (compute (c.almanac.callsOf f.id) params) (c.count f.id) (hmove.sound hc) hfree
    exact ⟨.cons hmove hleads, hunderway⟩

theorem run_keep (key : String) (x : Action Consultation Json) (c : Consultation) :
    (keep key x).run c =
      ((x.run (c.start key)).1, (x.run (c.start key)).2.finish key (x.run (c.start key)).1) := by
  change (x.andThen _).run (c.start key) = _
  rw [run_andThen]
  rfl

theorem moments_keep (key : String) (x : Action Consultation Json) (c : Consultation) :
    (keep key x).moments c = c.start key :: (x.moments (c.start key) ++
      [(x.run (c.start key)).2.finish key (x.run (c.start key)).1]) := by
  change c.start key :: (x.andThen _).moments (c.start key) = _
  rw [moments_andThen]
  rfl

theorem unblocked_keep (key : String) (x : Action Consultation Json) (c : Consultation) :
    (keep key x).unblocked c = x.unblocked (c.start key) := by
  change (x.andThen _).unblocked (c.start key) = _
  rw [unblocked_andThen]
  exact Bool.and_true _

variable {id key : String} {f : Fact} {params : Json}
variable (answer : String → Json → Option String → Action Consultation Json)

/-- After a computation its key is still underway, and nothing is kept of it. -/
theorem Tidy.busy {x : Action Consultation Json} (h : Tidy (c.start key) x)
    (hc : (c.start key).Sound) (hfree : x.unblocked (c.start key)) :
    key ∈ (x.run (c.start key)).2.underway ∧ (x.run (c.start key)).2.kept? key = none := by
  obtain ⟨hleads, hunderway⟩ := h hc hfree
  have hmem : key ∈ (x.run (c.start key)).2.underway := by
    rw [hunderway]
    exact List.mem_cons_self
  exact ⟨hmem, (hleads.holds hc fun hc h => h.sound hc).kept?_eq hmem⟩

theorem tidy_keep {x : Action Consultation Json} (hget : c.almanac.facts.get? id = some f)
    (hkey : c.almanac.keyOf? f params = some key) (hidle : key ∉ c.underway)
    (hnone : c.kept? key = none) (h : Tidy (c.start key) x) : Tidy c (keep key x) := by
  intro hc hfree
  rw [unblocked_keep] at hfree
  have hstart : c.Move (c.start key) := .start hget hkey hidle hnone
  obtain ⟨hleads, hunderway⟩ := h (hstart.sound hc) hfree
  obtain ⟨hmem, hstill⟩ := h.busy (hstart.sound hc) hfree
  have hfinish := Move.finish (x.run (c.start key)).1 hmem hstill
  rw [moments_keep, run_keep]
  refine ⟨.cons hstart (hleads.append (.cons hfinish .nil)), ?_⟩
  change (x.run (c.start key)).2.underway.erase key = c.underway
  rw [hunderway]
  exact List.erase_cons_head ..

/-- A request for a kept value finds it. -/
theorem agree_compute_kept (hkey : c.almanac.keyOf? f params = some key) {v : Json}
    (hv : c.kept? key = some v) : AgreeFrom c (compute answer f params) (pure v) := by
  refine (agreeFrom_state c _).trans ?_
  simp only [hkey]
  refine (agreeFrom_state c _).trans ?_
  rw [show c.almanac.cache.get? key = some v from hv]
  exact ⟨rfl, rfl, rfl⟩

/-- A value of which nothing is kept is computed, unless it is being computed. -/
theorem agree_compute_fresh (hkey : c.almanac.keyOf? f params = some key)
    (hnone : c.kept? key = none) (hidle : key ∉ c.underway) :
    AgreeFrom c (compute answer f params) (keep key (calculate answer f params)) := by
  refine (agreeFrom_state c _).trans ?_
  simp only [hkey]
  refine (agreeFrom_state c _).trans ?_
  rw [show c.almanac.cache.get? key = none from hnone]
  have hnot : c.isUnderway key = false := by simpa [isUnderway] using hidle
  simp only [hnot]
  exact ⟨rfl, rfl, rfl⟩

/-- A computation that requests the key that it computes is blocked. -/
theorem unblocked_compute_underway (hkey : c.almanac.keyOf? f params = some key)
    (hnone : c.kept? key = none) (hunderway : key ∈ c.underway) :
    (compute answer f params).unblocked c = false := by
  rw [compute, (agreeFrom_state c _).unblocked_eq]
  simp only [hkey]
  rw [keptOr, (agreeFrom_state c _).unblocked_eq, show c.almanac.cache.get? key = none from hnone]
  have hbusy : c.isUnderway key = true := by simpa [isUnderway] using hunderway
  simp [hbusy, unblocked]

/-- Where the value of a fact is not kept at all, it is calculated. -/
theorem agree_compute_uncached (hkey : c.almanac.keyOf? f params = none) :
    AgreeFrom c (compute answer f params) (calculate answer f params) := by
  refine (agreeFrom_state c _).trans ?_
  simp only [hkey]
  exact ⟨rfl, rfl, rfl⟩

variable {answer}

theorem tidy_compute (h : ∀ c id params path, Tidy c (answer id params path))
    (hget : c.almanac.facts.get? id = some f) : Tidy c (compute answer f params) := by
  cases hkey : c.almanac.keyOf? f params with
  | none => exact (tidy_calculate h f params c).of_agree (agree_compute_uncached answer hkey)
  | some key =>
    cases hkept : c.kept? key with
    | some v => exact (tidy_done c (.ok v)).of_agree (agree_compute_kept answer hkey hkept)
    | none =>
      by_cases hunderway : key ∈ c.underway
      · intro _ hfree
        rw [unblocked_compute_underway answer hkey hkept hunderway] at hfree
        cases hfree
      · exact (tidy_keep hget hkey hunderway hkept (tidy_calculate h f params _)).of_agree
          (agree_compute_fresh answer hkey hkept hunderway)

theorem agree_request (hget : c.almanac.facts.get? id = some f) (depth : Nat) (params : Json)
    (path : Option String) :
    AgreeFrom c (request (depth + 1) id params path)
      (do return (← compute (request depth) f params).project path) := by
  refine (agreeFrom_state c _).trans ?_
  simp only [hget]
  exact ⟨rfl, rfl, rfl⟩

theorem tidy_request (depth : Nat) (c : Consultation) (id : String) (params : Json)
    (path : Option String) : Tidy c (request depth id params path) := by
  induction depth generalizing c id params path with
  | zero => exact tidy_done c _
  | succ depth ih =>
    cases hget : c.almanac.facts.get? id with
    | some f =>
      refine Tidy.of_agree ?_ (agree_request hget depth params path)
      refine (tidy_compute ih hget).andThen fun r c' => ?_
      cases r <;> exact tidy_done c' _
    | none =>
      refine Tidy.of_agree ?_ (agreeFrom_state c _)
      simp only [hget]
      split
      · exact tidy_done c (.ok Json.null)
      · exact tidy_done c (.error (.undefinedFact id))

/-- How a request for a fact is answered at a moment: by the part of its value that the path of the
request leads to, which is null if it leads nowhere. -/
structure Served (c : Consultation) (depth : Nat) (id : String) (f : Fact) (params : Json)
    (path : Option String) : Prop where
  /-- A kept value is the answer, and nothing is done for it. -/
  kept : ∀ key v, c.almanac.keyOf? f params = some key → c.kept? key = some v →
    (request (depth + 1) id params path).run c =
        (.ok (path.elim v fun path => (v.resolve? path).getD .null), c) ∧
      (request (depth + 1) id params path).moments c = []
  /-- If nothing is kept, the value is computed, and kept if that does not fail. -/
  fresh : ∀ key, c.almanac.keyOf? f params = some key → c.kept? key = none →
    (request (depth + 1) id params path).unblocked c →
      let x := calculate (request depth) f params
      ∃ r c', x.run (c.start key) = (r, c') ∧
        (request (depth + 1) id params path).run c =
          (r.map fun v => path.elim v fun path => (v.resolve? path).getD .null,
            c'.finish key r) ∧
        (request (depth + 1) id params path).moments c =
          c.start key :: (x.moments (c.start key) ++ [c'.finish key r]) ∧
        (c'.finish key r).kept? key = r.toOption
  /-- Where the value of a fact may not be kept, it is computed, and nothing else is done. -/
  uncached : c.almanac.keyOf? f params = none →
    let x := calculate (request depth) f params
    (request (depth + 1) id params path).run c =
        ((x.run c).1.map fun v => path.elim v fun path => (v.resolve? path).getD .null,
          (x.run c).2) ∧
      (request (depth + 1) id params path).moments c = x.moments c

theorem run_project (x : Action Consultation Json) (path : Option String) (c : Consultation) :
    (do return (← x).project path : Action Consultation Json).run c =
      ((x.run c).1.map (·.project path), (x.run c).2) := by
  change (x.andThen _).run c = _
  rw [run_andThen]
  cases (x.run c).1 <;> rfl

theorem moments_project (x : Action Consultation Json) (path : Option String)
    (c : Consultation) :
    (do return (← x).project path : Action Consultation Json).moments c = x.moments c := by
  change (x.andThen _).moments c = _
  rw [moments_andThen]
  cases (x.run c).1 <;> exact List.append_nil _

theorem unblocked_project (x : Action Consultation Json) (path : Option String)
    (c : Consultation) :
    (do return (← x).project path : Action Consultation Json).unblocked c = x.unblocked c := by
  change (x.andThen _).unblocked c = _
  rw [unblocked_andThen]
  cases (x.run c).1 <;> exact Bool.and_true _

/-- A request projects the value that an action gives, if computing the fact is that action. -/
theorem agree_request_project {x : Action Consultation Json} {depth : Nat}
    (hget : c.almanac.facts.get? id = some f)
    (h : AgreeFrom c (compute (request depth) f params) x) (path : Option String) :
    AgreeFrom c (request (depth + 1) id params path) (do return (← x).project path) :=
  (agree_request hget depth params path).trans (h.andThen _)

theorem request_kept (hget : c.almanac.facts.get? id = some f)
    (hkey : c.almanac.keyOf? f params = some key) {v : Json} (hv : c.kept? key = some v)
    (depth : Nat) (path : Option String) :
    (request (depth + 1) id params path).run c = (.ok (v.project path), c) ∧
      (request (depth + 1) id params path).moments c = [] := by
  have hagree := agree_request_project hget (agree_compute_kept (request depth) hkey hv) path
  rw [hagree.run_eq, hagree.moments_eq]
  exact ⟨rfl, rfl⟩

theorem served (hc : c.Sound) (hget : c.almanac.facts.get? id = some f) (depth : Nat)
    (params : Json) (path : Option String) : Served c depth id f params path := by
  refine ⟨fun key v hkey hv => ?_, fun key hkey hnone hfree => ?_, fun hkey => ?_⟩
  · rw [← Json.project_eq]
    exact request_kept hget hkey hv depth path
  · have hidle : key ∉ c.underway := by
      intro hunderway
      rw [(agree_request hget depth params path).unblocked_eq, unblocked_project,
        unblocked_compute_underway _ hkey hnone hunderway] at hfree
      cases hfree
    have hagree := agree_request_project hget
      (agree_compute_fresh (request depth) hkey hnone hidle) path
    rw [hagree.unblocked_eq, unblocked_project, unblocked_keep] at hfree
    have hstart : c.Move (c.start key) := .start hget hkey hidle hnone
    have hbusy := (tidy_calculate (tidy_request depth) f params (c.start key)).busy
      (hstart.sound hc) hfree
    refine ⟨_, _, rfl, ?_, ?_, finish_kept?_self _ hbusy.2⟩
    · simp only [← Json.project_eq]
      rw [hagree.run_eq, run_project, run_keep]
    · rw [hagree.moments_eq, moments_project, moments_keep]
  · have hagree := agree_request_project hget
      (agree_compute_uncached (request depth) hkey) path
    simp only [← Json.project_eq]
    rw [hagree.run_eq, hagree.moments_eq, run_project, moments_project]
    exact ⟨rfl, rfl⟩

end Almanac
end Verdict
