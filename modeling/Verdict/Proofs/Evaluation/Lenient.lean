import Verdict.Proofs.Almanac.Undefined
import Verdict.Proofs.Evaluation.Blame
import Verdict.Proofs.Evaluation.Followed

/-!
# Rules about what is not there

An engine may accept conditions that are not there, and an almanac facts. A rule that gives a report
where neither does has not come to any of them, so it gives the same report where one or both do.
Where both do, a rule fails for what is not there only if the computation of a fact does.
-/
namespace Verdict
open Verdict.Action Verdict.Condition

/-- A fault for what is not there. -/
inductive Fault.Undefined : Fault → Prop
  | condition (name : String) : Undefined (.undefinedCondition name)
  | fact (id : String) : Undefined (.undefinedFact id)

namespace Almanac
variable {a : Almanac} {E : Fault → Prop}

theorem ensures_inquire (hraises : ∀ fault, a.Raises fault → E fault)
    (hundefined : a.options.allowUndefinedFacts = false → ∀ id, E (.undefinedFact id))
    (hdeep : ∀ id, E (.nestedTooDeep id)) (depth : Nat) (inquiry : Inquiry) :
    Ensures (Consultation.Since a) (fun _ => True) E ((provider depth).inquire inquiry) :=
  Provider.ensures_inquire (fun _ => rfl) (ensures_request hraises hundefined hdeep depth) inquiry

/-- The same, where any fault loses a request: then only what ends with a result is compared. -/
abbrev toleration (a : Almanac) (allow : Bool) : Likeness Consultation Consultation :=
  (undefinedFacts a allow).losing fun _ => True

theorem follows_provider (hpass : a.PassUndefined) (hstrict : a.options.allowUndefinedFacts = false)
    (allow : Bool) (depth : Nat) :
    (provider depth).Follows (toleration a allow) (provider depth) := by
  have hrequest (id : String) (params : Json) (path : Option String) :
      Follows (toleration a allow) Eq (request depth id params path)
        (request depth id params path) :=
    (follows_request hpass hstrict allow depth id params path).weaken (fun _ _ h => h)
      fun _ _ => trivial
  refine ⟨hrequest, fun v => ?_, fun _ => rfl⟩
  simp only [provider]
  cases FactReference.ofJson? v with
  | some r => exact hrequest r.id r.params r.path
  | none => exact .pure rfl

end Almanac

namespace Engine
open Almanac

/-- The engine, with conditions that are not there taken for false or not. -/
def allowing (e : Engine) (allow : Bool) : Engine :=
  { e with policy := { e.policy with allowUndefinedConditions := allow } }

/-- An engine that accepts conditions that are not there fails for what is not there only as the
provider does. -/
theorem Blamed.of_undefined {e : Engine} {r : Registry} {E : Fault → Prop} {c : Condition}
    {fault : Fault} (h : (e.allowing true).Blamed r E c fault) (hundefined : fault.Undefined) :
    E fault := by
  cases h with
  | provider h => exact h
  | operator _ hresolve =>
    obtain rfl | ⟨part, rfl⟩ := Registry.unknown_of_resolve hresolve <;> cases hundefined
  | circular => cases hundefined
  | undefined _ _ hallow => exact absurd rfl hallow

/-- The lenient modes only add to what the strict one gives. If a rule gives a report where neither
conditions nor facts may be missing, and the computations of the facts pass it on that a fact is not
there, it gives the same from the same state where conditions or facts or both may be missing, and
leaves the same behind. Where both may be missing, it fails for a condition or a fact that is not
there only with a fault that the computation of a fact raises. -/
theorem execute_lenient (defaults : Bool) (calls : List Registry.Call) (e : Engine) (rule : Rule)
    (depth : Nat) (c : Consultation) (hpass : c.almanac.PassUndefined) :
    let run := fun conditions facts : Bool =>
      ((e.allowing conditions).execute (Almanac.provider depth) rule).run
        ⟨Registry.run defaults calls, c.allowing facts⟩
    (∀ report w, run false false = (.ok report, w) →
      ∀ conditions facts,
        run conditions facts = (.ok report, { w with facts := w.facts.allowing facts })) ∧
      ∀ fault, fault.Undefined → (run true true).1 = .error fault → c.almanac.Raises fault := by
  intro run
  refine ⟨fun report w hrun conditions facts => ?_, fun fault hundefined hrun => ?_⟩
  · let L := toleration (c.allowing false).almanac facts
    have hp := follows_provider (a := (c.allowing false).almanac) hpass rfl facts depth
    have he : (e.allowing false).Follows L (e.allowing conditions) :=
      ⟨rfl, rfl, .inr ⟨rfl, fun _ => trivial⟩⟩
    have hfollows := follows_execute (Likeness.lifts_world fun _ h => h)
      (fun _ _ _ => trivial) hp he rule
    let start : World Consultation := ⟨Registry.run defaults calls, c.allowing false⟩
    have hstrict : ((e.allowing false).execute (provider depth) rule).run start =
        (.ok report, w) := hrun
    have hends := hfollows.run (s := start) (Consultation.Since.refl _)
    rw [hstrict] at hends
    obtain ⟨fault, -, hfault⟩ | ⟨halike, -, hworld⟩ := hends
    · cases hfault
    · exact Prod.ext halike.eq.symm hworld
  · let E := fun fault : Fault => fault.Undefined → c.almanac.Raises fault
    have hp := ensures_inquire (a := (c.allowing true).almanac) (E := E) (fun _ h _ => h) nofun
      (fun _ => nofun) depth
    have hw : World.Extends (Registry.run defaults calls) (Consultation.Since _)
        ⟨Registry.run defaults calls, c.allowing true⟩ :=
      ⟨(Registry.wellNamed_run defaults calls).coherent, rfl, .refl _⟩
    exact (blamed_of_execute hp hw hrun).of_undefined hundefined hundefined

/-- Years are asked for first and decide, so that nothing comes to what is missing; and what is gone
is gone in any mode. -/
theorem execute_lenient_gone :
    let years : Computation := .ask "age" .null none .done
    let gone : Computation := .done (.error (.undefinedFact "gone"))
    let facts : Table Fact := .ofList [
      ("age", ⟨"age", .constant (.ofInt64 20), {}, Fact.defaultKey⟩),
      ("gone", ⟨"gone", .dynamic fun _ _ => gone, {}, Fact.defaultKey⟩),
      ("years", ⟨"years", .dynamic fun _ _ => years, {}, Fact.defaultKey⟩)]
    let c : Consultation := { almanac := { Almanac.empty ⟨false, false⟩ with facts } }
    let e : Engine := ⟨.empty, {}⟩
    let heading : Heading := ⟨1, none, .empty⟩
    let missing : Condition := .group .all heading
      [.reference ⟨"missing", none, none, .empty⟩, .leaf (.ofComparison "missing" "equal" .null)]
    let adult : Leaf := { Leaf.ofComparison "years" "equal" (.ofInt64 20) with priority := some 2 }
    let entry : Rule := ⟨none, 1, .group .any heading [missing, .leaf adult], ⟨"enter", none⟩⟩
    let search : Rule := ⟨none, 1, .leaf (.ofComparison "gone" "equal" .null), ⟨"found", none⟩⟩
    let run := fun (rule : Rule) (conditions facts : Bool) =>
      ((e.allowing conditions).execute (Almanac.provider 3) rule).run
        ⟨Registry.run true [], c.allowing facts⟩
    c.almanac.PassUndefined ∧
      (∃ report w, run entry false false = (.ok report, w) ∧ ∀ conditions facts,
        run entry conditions facts = (.ok report, { w with facts := w.facts.allowing facts })) ∧
      (run search true true).1 = .error (.undefinedFact "gone") ∧
      c.almanac.Raises (.undefinedFact "gone") := by
  intro years gone facts c e heading missing adult entry search run
  have hpass : c.almanac.PassUndefined := by
    rintro x ⟨id, f, compute, n, params, hget, hsource, -, rfl⟩
    simp only [c, facts, Table.ofList, Table.insertAll, List.foldl_cons, List.foldl_nil,
      Table.get?_insert_eq_some_iff] at hget
    obtain ⟨-, rfl⟩ | ⟨-, ⟨-, rfl⟩ | ⟨-, ⟨-, rfl⟩ | ⟨-, hget⟩⟩⟩ := hget
    · cases hsource
      exact ⟨fun id => ⟨id, rfl⟩, fun r => trivial⟩
    · cases hsource
      exact trivial
    · cases hsource
    · cases hget
  have hsearch : (run search true true).1 = .error (.undefinedFact "gone") := by
    refine Option.some.inj (Outcomes.fault?_eq_some ?_)
    simp only [run, execute, search, evaluate]
    decide +kernel
  let rest : Evaluator Consultation := fun _ _ => .fail .missingFactId
  have hevaluate : (e.allowing false).evaluate (provider 3) [] entry.conditions = _ :=
    evaluate_pair rest (n := 2) (by decide) fun _ => show (1 : Int64) < 2 by decide
  have hok : (run entry false false).1.isOk := by
    simp only [run, execute, hevaluate]
    decide +kernel
  cases hrun : run entry false false with
  | mk outcome w =>
    rw [hrun] at hok
    cases outcome with
    | error fault => cases hok
    | ok report =>
      obtain ⟨hsame, -⟩ := execute_lenient true [] e entry 3 c hpass
      exact ⟨hpass, ⟨report, w, rfl, hsame report w hrun⟩, hsearch,
        (execute_lenient true [] e search 3 c hpass).2 _ (.fact "gone") hsearch⟩

end Engine
end Verdict
