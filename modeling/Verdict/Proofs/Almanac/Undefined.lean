import Verdict.Proofs.Action.Follows
import Verdict.Proofs.Almanac.Ensures
import Verdict.Proofs.Almanac.Moves

/-!
# Facts that are not there

An almanac that takes facts that are not there for null does what one does that faults them, as long
as the latter does not come to such a fact. When it does, and every computation passes the fault on,
the request is lost: it ends with a fault of that kind. An almanac that takes them for null meets no
such fault of its own.
-/
namespace Verdict
open Verdict.Action

namespace Computation

/-- Whatever it is answered, the computation ends with a fault for a fact that is not there. -/
def FailsUndefined : Computation → Prop
  | done outcome => ∃ id, outcome = .error (.undefinedFact id)
  | ask _ _ _ next => ∀ r, FailsUndefined (next r)
  | pause next => FailsUndefined next

/-- When an answer is a fault for a fact that is not there, so is the end of the computation. -/
def PassesUndefined : Computation → Prop
  | done _ => True
  | ask _ _ _ next =>
    (∀ id, FailsUndefined (next (.error (.undefinedFact id)))) ∧ ∀ r, PassesUndefined (next r)
  | pause next => PassesUndefined next

/-- The computation may end with the fault though it was no answer. -/
inductive Raises (fault : Fault) : Computation → Prop
  | done : Raises fault (.done (.error fault))
  | ask {id : String} {params : Json} {path : Option String}
      {next : Except Fault Json → Computation} {r : Except Fault Json} (hr : r ≠ .error fault)
      (h : Raises fault (next r)) : Raises fault (.ask id params path next)
  | pause {next : Computation} (h : Raises fault next) : Raises fault (.pause next)

variable {σ : Type} {I : σ → Prop} {E : Fault → Prop}
variable {answer : String → Json → Option String → Action σ Json}

/-- A run fails with what the computation raises and what answers fail with. -/
theorem ensures_run
    (hanswer : ∀ id params path, Ensures I (fun _ => True) E (answer id params path))
    {c : Computation} (hraises : ∀ fault, c.Raises fault → E fault) :
    Ensures I (fun _ => True) E (c.run answer) := by
  induction c with
  | done r =>
    cases r with
    | ok v => exact True.intro
    | error fault => exact hraises fault .done
  | ask id params path next ih =>
    refine (hanswer id params path).andThen fun r hr => ih r fun fault hfault => ?_
    by_cases he : r = .error fault
    · exact hr.of_eq_error he
    · exact hraises fault (.ask he hfault)
  | pause next ih => exact ih fun fault hfault => hraises fault (.pause hfault)

theorem FailsUndefined.ensures_run
    (hanswer : ∀ id params path, Ensures I (fun _ => True) (fun _ => True) (answer id params path))
    {c : Computation} (hc : c.FailsUndefined) :
    Ensures I (fun _ => False) (fun fault => fault.isUndefinedFact) (c.run answer) := by
  induction c with
  | done r =>
    obtain ⟨id, rfl⟩ := hc
    exact rfl
  | ask id params path next ih =>
    exact (hanswer id params path).andThen fun r _ => ih r (hc r)
  | pause next ih => exact ih hc

end Computation

namespace Consultation
variable {a : Almanac} {c : Consultation}

/-- The almanac in use has the facts and options of `a`, and may have begun more computations. -/
structure Since (a : Almanac) (c : Consultation) : Prop where
  facts_eq : c.almanac.facts = a.facts
  options_eq : c.almanac.options = a.options
  callsOf_le : ∀ id, a.callsOf id ≤ c.almanac.callsOf id

theorem Since.refl (c : Consultation) : c.Since c.almanac := ⟨rfl, rfl, fun _ => Nat.le_refl _⟩

theorem Since.start (h : c.Since a) (key : String) : (c.start key).Since a :=
  ⟨h.facts_eq, h.options_eq, h.callsOf_le⟩

theorem Since.finish (h : c.Since a) (key : String) (r : Except Fault Json) :
    (c.finish key r).Since a := by
  cases r <;> exact ⟨h.facts_eq, h.options_eq, h.callsOf_le⟩

theorem Since.count (h : c.Since a) (id : String) : (c.count id).Since a where
  facts_eq := h.facts_eq
  options_eq := h.options_eq
  callsOf_le id' := by
    refine Nat.le_trans (h.callsOf_le id') ?_
    rw [Almanac.callsOf, Almanac.callsOf, Consultation.count, Table.get?_insert]
    by_cases hid : id' = id
    · rw [if_pos hid, hid]
      exact Nat.le_succ _
    · simp only [if_neg hid, Nat.le_refl]

/-- The same, with facts that are not there taken for null or not. -/
def allowing (allow : Bool) (c : Consultation) : Consultation :=
  { c with almanac := { c.almanac with
      options := { c.almanac.options with allowUndefinedFacts := allow } } }

theorem allowing_finish (allow : Bool) (key : String) (r : Except Fault Json) (c : Consultation) :
    (c.finish key r).allowing allow = (c.allowing allow).finish key r := by
  cases r <;> rfl

end Consultation

namespace Almanac
open Consultation

/-- The computation is one that a fact of the almanac may begin from now on. -/
def MayBegin (a : Almanac) (x : Computation) : Prop :=
  ∃ id f compute n params, a.facts.get? id = some f ∧ f.source = .dynamic compute ∧
    a.callsOf f.id ≤ n ∧ x = compute n params

/-- Some computation of a fact raises the fault. -/
def Raises (a : Almanac) (fault : Fault) : Prop := ∃ x, a.MayBegin x ∧ x.Raises fault

/-- The computations of all facts pass it on that a fact is not there. -/
def PassUndefined (a : Almanac) : Prop := ∀ x, a.MayBegin x → x.PassesUndefined

variable {a : Almanac} {E : Fault → Prop} {f : Fact} {params : Json}
variable {answer : String → Json → Option String → Action Consultation Json}

/-! What a request fails with. -/

theorem ensures_calculate
    (hanswer : ∀ id params path, Ensures (Since a) (fun _ => True) E (answer id params path))
    (hraises : ∀ compute n, f.source = .dynamic compute → a.callsOf f.id ≤ n →
      ∀ fault, (compute n params).Raises fault → E fault) :
    Ensures (Since a) (fun _ => True) E (calculate answer f params) := by
  unfold calculate
  cases hsource : f.source with
  | constant v => exact Ensures.pure True.intro
  | dynamic compute =>
    have hbegin : Ensures (Since a) (fun n => a.callsOf f.id ≤ n) E (beginCall f.id) :=
      fun c hc => ⟨hc.count f.id, hc.callsOf_le f.id⟩
    exact hbegin.bind fun n hn => Computation.ensures_run hanswer (hraises compute n hsource hn)

/-- A request fails with what a computation raises, or for a fact that is not there, if that is not
allowed, or because computations nest too deeply. -/
theorem ensures_request (hraises : ∀ fault, a.Raises fault → E fault)
    (hundefined : a.options.allowUndefinedFacts = false → ∀ id, E (.undefinedFact id))
    (hdeep : ∀ id, E (.nestedTooDeep id)) (depth : Nat) (id : String) (params : Json)
    (path : Option String) :
    Ensures (Since a) (fun _ => True) E (request depth id params path) := by
  induction depth generalizing id params path with
  | zero => exact hdeep id
  | succ depth ih =>
    refine Ensures.state.bind fun c hc => ?_
    rw [hc.facts_eq, hc.options_eq]
    cases hget : a.facts.get? id with
    | some f =>
      have hcalculate : Ensures (Since a) (fun _ => True) E (calculate (request depth) f params) :=
        ensures_calculate ih fun compute n hsource hn fault h =>
          hraises fault ⟨_, ⟨id, f, compute, n, params, hget, hsource, hn, rfl⟩, h⟩
      have hcompute := Ensures.compute (fun _ _ _ _ _ _ => trivial) (fun key c hc => hc.start key)
        (fun key _ c r hc _ => hc.finish key r) hcalculate
      exact hcompute.bind fun v _ => Ensures.pure True.intro
    | none =>
      cases hallow : a.options.allowUndefinedFacts with
      | true => exact Ensures.pure True.intro
      | false => exact hundefined hallow id

/-! Requests with and without facts that are not there. -/

/-- An almanac as it goes on from `a`, and the same with facts that are not there taken for null or
not. A fact that is not there loses a request to the former. -/
def undefinedFacts (a : Almanac) (allow : Bool) : Likeness Consultation Consultation where
  within := Since a
  image := allowing allow
  lost fault := fault.isUndefinedFact
  idle _ := False
  within_idle h _ := h.elim
  image_idle h _ := h.elim

variable {allow : Bool} {x y : Action Consultation Json}

theorem follows_keptOr (key : String) (h : Follows (undefinedFacts a allow) Eq x y) :
    Follows (undefinedFacts a allow) Eq (keptOr key x) (keptOr key y) := by
  refine Follows.state.bind ?_
  rintro c _ ⟨-, rfl⟩
  have hcache : ((undefinedFacts a allow).image c).almanac.cache = c.almanac.cache := rfl
  rw [hcache]
  cases c.almanac.cache.get? key with
  | some v => exact .pure rfl
  | none => exact h

theorem follows_keep (key : String) (h : Follows (undefinedFacts a allow) Eq x y) :
    Follows (undefinedFacts a allow) Eq (keep key x) (keep key y) := by
  have hstart : Follows (undefinedFacts a allow) (fun _ _ => True) (.modify (start key))
      (.modify (start key)) := .modify (fun _ hc => Since.start hc key) fun _ _ => rfl
  have hfinish (r : Except Fault Json) : Follows (undefinedFacts a allow) (fun _ _ => True)
      (.modify (finish key r)) (.modify (finish key r)) :=
    .modify (fun _ hc => Since.finish hc key r) fun c _ => allowing_finish allow key r c
  refine hstart.bind fun _ _ _ => h.andThen (fun r r' hr => ?_) fun fault hfault => ?_
  · obtain rfl := hr.eq
    exact (hfinish r).bind fun _ _ _ => .done (.refl r)
  · exact (Ensures.modify fun c hc => Since.finish hc key _).bind fun _ _ => hfault

theorem follows_compute (h : Follows (undefinedFacts a allow) Eq (calculate answer f params)
    (calculate answer f params)) :
    Follows (undefinedFacts a allow) Eq (compute answer f params) (compute answer f params) := by
  refine Follows.state.bind ?_
  rintro c _ ⟨-, rfl⟩
  have hkey : ((undefinedFacts a allow).image c).almanac.keyOf? f params =
      c.almanac.keyOf? f params := rfl
  rw [hkey]
  cases c.almanac.keyOf? f params with
  | none => exact h
  | some key =>
    have hfresh := follows_keep key h
    refine follows_keptOr key (.ite Iff.rfl (.wait (fun c _ => rfl) ?_) hfresh)
    exact follows_keptOr key hfresh

theorem follows_run
    (hanswer : ∀ id params path,
      Follows (undefinedFacts a allow) Eq (answer id params path) (answer id params path))
    (hkeeps : ∀ id params path,
      Ensures (Since a) (fun _ => True) (fun _ => True) (answer id params path))
    {c : Computation} (hc : c.PassesUndefined) :
    Follows (undefinedFacts a allow) Eq (c.run answer) (c.run answer) := by
  induction c with
  | done r => exact .done (.refl r)
  | ask id params path next ih =>
    refine (hanswer id params path).andThen (fun r r' hr => ?_) fun fault hfault => ?_
    · obtain rfl := hr.eq
      exact ih r (hc.2 r)
    · cases fault with
      | undefinedFact id => exact (hc.1 id).ensures_run hkeeps
      | _ => cases hfault
  | pause next ih => exact .wait (fun _ _ => rfl) (ih hc)

theorem follows_calculate
    (hanswer : ∀ id params path,
      Follows (undefinedFacts a allow) Eq (answer id params path) (answer id params path))
    (hkeeps : ∀ id params path,
      Ensures (Since a) (fun _ => True) (fun _ => True) (answer id params path))
    (hpasses : ∀ compute n, f.source = .dynamic compute → a.callsOf f.id ≤ n →
      (compute n params).PassesUndefined) :
    Follows (undefinedFacts a allow) Eq (calculate answer f params)
      (calculate answer f params) := by
  unfold calculate
  cases hsource : f.source with
  | constant v => exact .pure rfl
  | dynamic compute =>
    have hbegin : Follows (undefinedFacts a allow) (fun n n' => n = n' ∧ a.callsOf f.id ≤ n)
        (beginCall f.id) (beginCall f.id) :=
      .read fun c hc => .write (Since.count hc f.id) rfl (.done (.ok ⟨rfl, hc.callsOf_le f.id⟩))
    refine hbegin.bind ?_
    rintro n _ ⟨rfl, hn⟩
    exact follows_run hanswer hkeeps (hpasses compute n hsource hn)

/-- Where facts that are not there are not allowed, a request is lost when it comes to one, and does
until then what it does where they are allowed. -/
theorem follows_request (hpass : a.PassUndefined) (hstrict : a.options.allowUndefinedFacts = false)
    (allow : Bool) (depth : Nat) (id : String) (params : Json) (path : Option String) :
    Follows (undefinedFacts a allow) Eq (request depth id params path)
      (request depth id params path) := by
  induction depth generalizing id params path with
  | zero => exact .fail _
  | succ depth ih =>
    refine Follows.state.bind ?_
    rintro c _ ⟨hc, rfl⟩
    have hfacts : ((undefinedFacts a allow).image c).almanac.facts = a.facts := hc.facts_eq
    rw [hfacts, hc.facts_eq, hc.options_eq, hstrict]
    cases hget : a.facts.get? id with
    | some f =>
      have hkeeps := ensures_request (a := a) (E := fun _ => True) (fun _ _ => trivial)
        (fun _ _ => trivial) (fun _ => trivial) depth
      refine (follows_compute (follows_calculate ih hkeeps fun compute n hsource hn =>
        hpass _ ⟨id, f, compute, n, params, hget, hsource, hn, rfl⟩)).bind ?_
      rintro v _ rfl
      exact .pure rfl
    | none => exact .lost (e := .undefinedFact id) rfl rfl

end Almanac
end Verdict
