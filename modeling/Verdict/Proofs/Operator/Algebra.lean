import Verdict.Proofs.Json.Equality
import Verdict.Proofs.Operator.Run

/-!
# The algebra of decorators

Behind a decorator at hand stands the test of the operator inside it, changed in one of six ways.
So chains of decorators obey the laws of negation, of exchange and of the quantifiers, whatever
operators were added, and whatever was composed before.
-/
namespace Verdict

theorem someItem_of_not_isArray {v : Json} (h : v.isArray = false) (test : Json → Bool) :
    someItem v test = false := by
  cases v with
  | array items => cases h
  | _ => rfl

theorem everyItem_of_not_isArray {v : Json} (h : v.isArray = false) (test : Json → Bool) :
    everyItem v test = false := by
  cases v with
  | array items => cases h
  | _ => rfl

theorem isArray_and_someItem (v : Json) (test : Json → Bool) :
    (v.isArray && someItem v test) = someItem v test := by
  cases v <;> rfl

theorem isArray_and_everyItem (v : Json) (test : Json → Bool) :
    (v.isArray && everyItem v test) = everyItem v test := by
  cases v <;> rfl

theorem not_someItem {v : Json} (h : v.isArray = true) (test : Json → Bool) :
    (!someItem v test) = everyItem v fun item => !test item := by
  cases v with
  | array items => exact List.not_any_eq_all_not
  | _ => cases h

theorem not_everyItem {v : Json} (h : v.isArray = true) (test : Json → Bool) :
    (!everyItem v test) = someItem v fun item => !test item := by
  cases v with
  | array items => exact List.not_all_eq_any_not
  | _ => cases h

namespace Registry

/-- The registry had the operators and decorators at hand. Further operators came under new names
without colons, and names were resolved. -/
inductive Supplemented : Registry → Prop
  | start : Supplemented withDefaults
  | addOperator {r : Registry} {o : Operator} (h : Supplemented r) (hfree : ':' ∉ o.name.toList)
      (hnew : r.operators.contains o.name = false) : Supplemented (r.addOperator o)
  | resolve {r : Registry} (h : Supplemented r) (name : String) :
      Supplemented (r.resolve name).2

/-- What stays of the operators and decorators at hand: those that were registered are among the
operators, no name of them has a colon, and everything else is composed of them. -/
structure Stocked (registered : Table Operator) (r : Registry) : Prop where
  coherent : Coherent registered r
  colon_not_mem : ∀ {key o}, registered.get? key = some o → ':' ∉ key.toList
  operator : ∀ o ∈ Operator.defaults, registered.get? o.name = some o
  decorators_eq : r.decorators = withDefaults.decorators

variable {registered : Table Operator} {r : Registry} {name : String} {o : Operator}
variable {d : Decorator} {test : Json → Json → Bool}

theorem stocked_start : Stocked withDefaults.operators withDefaults where
  coherent := (wellNamed_start true).coherent
  colon_not_mem := by
    have hnames : ∀ o ∈ Operator.defaults, ':' ∉ o.name.toList := by decide
    intro key o hget
    refine get?_ofList_of_forall (P := fun key _ => ':' ∉ key.toList) (fun e he => ?_) hget
    obtain ⟨o, ho, rfl⟩ := List.mem_map.1 he
    exact hnames o ho
  operator := by
    simp only [Operator.defaults, List.forall_mem_cons]
    exact ⟨rfl, rfl, rfl, rfl, rfl, rfl, rfl, rfl, rfl, rfl, List.forall_mem_nil _⟩
  decorators_eq := rfl

theorem endsWith_eq_false {operator key : String} (h : ':' ∉ key.toList) :
    endsWith operator key = false := by
  refine Bool.eq_false_iff.2 fun hends => h ?_
  obtain ⟨front, rfl⟩ := endsWith_iff.1 hends
  simp

theorem Stocked.addOperator (h : Stocked registered r) (hfree : ':' ∉ o.name.toList)
    (hnew : r.operators.contains o.name = false) :
    Stocked ((registered.retain fun key => !endsWith o.name key).insert o.name o)
      (r.addOperator o) where
  coherent := h.coherent.left_addOperator o
  colon_not_mem hget := by
    rcases Table.get?_insert_eq_some_iff.1 hget with ⟨rfl, -⟩ | ⟨-, hget⟩
    · exact hfree
    · exact h.colon_not_mem (Table.get?_retain_eq_some_iff.1 hget).2
  operator o' ho' := by
    have hget := h.operator o' ho'
    have hne : o'.name ≠ o.name := by
      intro he
      rw [he] at hget
      rw [Table.contains, h.coherent.registered_le hget] at hnew
      cases hnew
    rw [Table.get?_insert_of_ne _ hne]
    -- a new operator strikes only names that have a colon
    refine Table.get?_retain_eq_some_iff.2 ⟨?_, hget⟩
    rw [endsWith_eq_false (h.colon_not_mem hget)]
    rfl
  decorators_eq := h.decorators_eq

theorem Stocked.resolve (h : Stocked registered r) (name : String) :
    Stocked registered (r.resolve name).2 where
  coherent := h.coherent.resolve_snd name
  colon_not_mem := h.colon_not_mem
  operator := h.operator
  decorators_eq := (decorators_resolve r name).trans h.decorators_eq

theorem Supplemented.stocked (h : Supplemented r) : ∃ registered, Stocked registered r := by
  induction h with
  | start => exact ⟨_, stocked_start⟩
  | addOperator _ hfree hnew ih =>
    obtain ⟨registered, hstocked⟩ := ih
    exact ⟨_, hstocked.addOperator hfree hnew⟩
  | resolve _ name ih =>
    obtain ⟨registered, hstocked⟩ := ih
    exact ⟨registered, hstocked.resolve name⟩

/-- An operator at hand is still what its name resolves to. -/
theorem Supplemented.resolve_default (h : Supplemented r) (ho : o ∈ Operator.defaults) :
    (r.resolve o.name).1 = .ok o := by
  obtain ⟨registered, hstocked⟩ := h.stocked
  rw [resolve_of_get? (hstocked.coherent.registered_le (hstocked.operator o ho))]

theorem get?_decorators_withDefaults (hd : d ∈ Decorator.defaults) :
    withDefaults.decorators.get? d.name = some d := by
  have hall : ∀ d ∈ Decorator.defaults, withDefaults.decorators.get? d.name = some d := by
    simp only [Decorator.defaults, List.forall_mem_cons]
    exact ⟨rfl, rfl, rfl, rfl, rfl, rfl, List.forall_mem_nil _⟩
  exact hall d hd

/-- A decorator at hand in front of a name decorates the operator of that name. -/
theorem Supplemented.resolve_decorated (h : Supplemented r) (hd : d ∈ Decorator.defaults)
    (ho : (r.resolve name).1 = .ok o) :
    (r.resolve (d.name ++ ":" ++ name)).1 = .ok (d.decorate o) := by
  obtain ⟨registered, hstocked⟩ := h.stocked
  have hfree : ∀ d ∈ Decorator.defaults, ':' ∉ d.name.toList := by decide
  have hsegments : segments (d.name ++ ":" ++ name) = d.name :: segments name := by
    rw [segments_append, segments_eq_singleton (hfree d hd), List.singleton_append]
  have hnone : registered.get? (":".intercalate (d.name :: segments name)) = none := by
    refine Option.eq_none_iff_forall_ne_some.2 fun o' hget => hstocked.colon_not_mem hget ?_
    rw [← hsegments, intercalate_segments]
    simp
  rw [hstocked.coherent.resolve_fst, plain] at ho
  rw [hstocked.coherent.resolve_fst, plain, hsegments, plainOf_cons hnone (segments_ne_nil name)
    (hstocked.decorators_eq ▸ get?_decorators_withDefaults hd), plainOf_eq_ok_of_eq_ok ho]
  rfl

/-- The name resolves to an operator with this test. -/
def Tests (r : Registry) (name : String) (test : Json → Json → Bool) : Prop :=
  ∃ o, (r.resolve name).1 = .ok o ∧ o.evaluate = test

theorem Supplemented.tests_decorated (h : Supplemented r) (hd : d ∈ Decorator.defaults)
    (htests : r.Tests name test) : r.Tests (d.name ++ ":" ++ name) fun fact value =>
      (match d.guard with
        | none => true
        | some guard => guard fact) && d.callback fact value test := by
  obtain ⟨o, ho, rfl⟩ := htests
  exact ⟨d.decorate o, h.resolve_decorated hd ho, rfl⟩

/-! The six decorators at hand. -/

theorem Supplemented.not (h : Supplemented r) (htests : r.Tests name test) :
    r.Tests ("not:" ++ name) fun fact value => !test fact value :=
  h.tests_decorated (d := ⟨"not", none, fun fact value next => !next fact value⟩)
    (by simp [Decorator.defaults]) htests

theorem Supplemented.swap (h : Supplemented r) (htests : r.Tests name test) :
    r.Tests ("swap:" ++ name) fun fact value => test value fact :=
  h.tests_decorated (d := ⟨"swap", none, fun fact value next => next value fact⟩)
    (by simp [Decorator.defaults]) htests

theorem Supplemented.someValue (h : Supplemented r) (htests : r.Tests name test) :
    r.Tests ("someValue:" ++ name) fun fact value => someItem value fun item => test fact item :=
  h.tests_decorated
    (d := ⟨"someValue", none, fun fact value next => someItem value fun v => next fact v⟩)
    (by simp [Decorator.defaults]) htests

theorem Supplemented.everyValue (h : Supplemented r) (htests : r.Tests name test) :
    r.Tests ("everyValue:" ++ name) fun fact value => everyItem value fun item => test fact item :=
  h.tests_decorated
    (d := ⟨"everyValue", none, fun fact value next => everyItem value fun v => next fact v⟩)
    (by simp [Decorator.defaults]) htests

theorem Supplemented.someFact (h : Supplemented r) (htests : r.Tests name test) :
    r.Tests ("someFact:" ++ name) fun fact value => someItem fact fun item => test item value := by
  have hguarded := h.tests_decorated
    (d := ⟨"someFact", some Json.isArray,
      fun fact value next => someItem fact fun v => next v value⟩)
    (by simp [Decorator.defaults]) htests
  simp only [isArray_and_someItem] at hguarded
  exact hguarded

theorem Supplemented.everyFact (h : Supplemented r) (htests : r.Tests name test) :
    r.Tests ("everyFact:" ++ name) fun fact value =>
      everyItem fact fun item => test item value := by
  have hguarded := h.tests_decorated
    (d := ⟨"everyFact", some Json.isArray,
      fun fact value next => everyItem fact fun v => next v value⟩)
    (by simp [Decorator.defaults]) htests
  simp only [isArray_and_everyItem] at hguarded
  exact hguarded

theorem Tests.joined {front back : String} (h : r.Tests (front ++ (back ++ name)) test) :
    r.Tests (front ++ back ++ name) test := by
  rwa [String.append_assoc]

/-- The verdict of the operator that the name resolves to. -/
def verdict (r : Registry) (name : String) (fact value : Json) : Option Bool :=
  (r.resolve name).1.toOption.map (·.evaluate fact value)

/-- Both names resolve, and to operators with one verdict. -/
def Agree (r : Registry) (left right : String) (fact value : Json) : Prop :=
  ∃ b, r.verdict left fact value = some b ∧ r.verdict right fact value = some b

theorem Tests.verdict_eq (h : r.Tests name test) (fact value : Json) :
    r.verdict name fact value = some (test fact value) := by
  obtain ⟨o, ho, rfl⟩ := h
  rw [verdict, ho]
  rfl

theorem Tests.agree {left right : String} {test' : Json → Json → Bool} {fact value : Json}
    (h : r.Tests left test) (h' : r.Tests right test') (he : test fact value = test' fact value) :
    r.Agree left right fact value :=
  ⟨test fact value, h.verdict_eq fact value, he ▸ h'.verdict_eq fact value⟩

/-- A negation outside and one inside of a quantifier over the items of `whole`. The verdicts are
one for an array. What is no array passes no quantifier, so only the negation outside holds. -/
def Trade (r : Registry) (whole : Json) (outside inside : String) (fact value : Json) : Prop :=
  (whole.isArray = true → r.Agree outside inside fact value) ∧
  (whole.isArray = false →
    r.verdict outside fact value = some true ∧ r.verdict inside fact value = some false)

theorem Tests.trade {whole fact value : Json} {outside inside : String}
    {quantified dual : Json → Json → Bool}
    (houtside : r.Tests outside fun fact value => !quantified fact value)
    (hinside : r.Tests inside dual)
    (harray : whole.isArray = true → (!quantified fact value) = dual fact value)
    (hquantified : whole.isArray = false → quantified fact value = false)
    (hdual : whole.isArray = false → dual fact value = false) :
    r.Trade whole outside inside fact value := by
  refine ⟨fun h => houtside.agree hinside (harray h), fun h => ?_⟩
  rw [houtside.verdict_eq, hinside.verdict_eq, hquantified h, hdual h]
  exact ⟨rfl, rfl⟩

/-- Both names resolve, and to operators that differ in nothing but their names. -/
def Synonyms (r : Registry) (left right : String) : Prop :=
  ∃ o o', (r.resolve left).1 = .ok o ∧ (r.resolve right).1 = .ok o' ∧
    o.accepts = o'.accepts ∧ o.evaluate = o'.evaluate

variable {fact value : Json}

theorem Supplemented.test_default (h : Supplemented r) (ho : o ∈ Operator.defaults) :
    r.Tests o.name o.evaluate :=
  ⟨o, h.resolve_default ho, rfl⟩

/-- The laws of chains that end in this name. -/
structure Laws (r : Registry) (name : String) : Prop where
  not_not (fact value : Json) : r.Agree ("not:not:" ++ name) name fact value
  swap_swap (fact value : Json) : r.Agree ("swap:swap:" ++ name) name fact value
  swap_someFact (fact value : Json) :
    r.Agree ("swap:someFact:" ++ name) ("someValue:swap:" ++ name) fact value
  swap_everyFact (fact value : Json) :
    r.Agree ("swap:everyFact:" ++ name) ("everyValue:swap:" ++ name) fact value
  not_someFact (fact value : Json) :
    r.Trade fact ("not:someFact:" ++ name) ("everyFact:not:" ++ name) fact value
  not_everyFact (fact value : Json) :
    r.Trade fact ("not:everyFact:" ++ name) ("someFact:not:" ++ name) fact value
  not_someValue (fact value : Json) :
    r.Trade value ("not:someValue:" ++ name) ("everyValue:not:" ++ name) fact value
  not_everyValue (fact value : Json) :
    r.Trade value ("not:everyValue:" ++ name) ("someValue:not:" ++ name) fact value

theorem Supplemented.laws (h : Supplemented r) (htests : r.Tests name test) : r.Laws name where
  not_not _ _ := (h.not (h.not htests)).joined.agree htests (Bool.not_not _)
  swap_swap _ _ := (h.swap (h.swap htests)).joined.agree htests rfl
  swap_someFact _ _ :=
    (h.swap (h.someFact htests)).joined.agree (h.someValue (h.swap htests)).joined rfl
  swap_everyFact _ _ :=
    (h.swap (h.everyFact htests)).joined.agree (h.everyValue (h.swap htests)).joined rfl
  not_someFact _ _ :=
    (h.not (h.someFact htests)).joined.trade (h.everyFact (h.not htests)).joined
      (not_someItem · _) (someItem_of_not_isArray · _) (everyItem_of_not_isArray · _)
  not_everyFact _ _ :=
    (h.not (h.everyFact htests)).joined.trade (h.someFact (h.not htests)).joined
      (not_everyItem · _) (everyItem_of_not_isArray · _) (someItem_of_not_isArray · _)
  not_someValue _ _ :=
    (h.not (h.someValue htests)).joined.trade (h.everyValue (h.not htests)).joined
      (not_someItem · _) (someItem_of_not_isArray · _) (everyItem_of_not_isArray · _)
  not_everyValue _ _ :=
    (h.not (h.everyValue htests)).joined.trade (h.someValue (h.not htests)).joined
      (not_everyItem · _) (everyItem_of_not_isArray · _) (someItem_of_not_isArray · _)

/-! The operators at hand that a quantifier spells with an equality. -/

theorem someItem_strictEqual {whole : Json} (h : whole.isArray = true) (part : Json) :
    someItem whole (fun item => Json.strictEqual item part) = Json.includes whole part := by
  cases whole with
  | array items => rfl
  | _ => cases h

theorem everyItem_strictEqual {whole : Json} (h : whole.isArray = true) (part : Json) :
    everyItem whole (fun item => !Json.strictEqual item part) = Json.excludes whole part := by
  rw [← not_someItem h, someItem_strictEqual h]
  cases whole with
  | array items => rfl
  | _ => cases h

theorem evaluate_congr {o o' : Operator} (haccepts : o.accepts = o'.accepts)
    (hcallback : ∀ fact value, o.accepts fact = true →
      o.callback fact value = o'.callback fact value) : o.evaluate = o'.evaluate := by
  funext fact value
  rw [Operator.evaluate, Operator.evaluate, ← haccepts]
  cases hfact : o.accepts fact with
  | false => rfl
  | true => rw [hcallback fact value hfact]

theorem Supplemented.someFact_equal (h : Supplemented r) :
    r.Synonyms "someFact:equal" "contains" := by
  refine ⟨_, _, h.resolve_decorated
    (d := ⟨"someFact", some Json.isArray, fun fact value next => someItem fact (next · value)⟩)
    (by simp [Decorator.defaults]) (h.resolve_default (o := ⟨"equal", none, Json.strictEqual⟩)
    (by simp [Operator.defaults])), h.resolve_default
    (o := ⟨"contains", some Json.isArray, Json.includes⟩) (by simp [Operator.defaults]), rfl,
    evaluate_congr rfl fun fact value hfact => ?_⟩
  exact someItem_strictEqual hfact value

theorem Supplemented.everyFact_notEqual (h : Supplemented r) :
    r.Synonyms "everyFact:notEqual" "doesNotContain" := by
  refine ⟨_, _, h.resolve_decorated
    (d := ⟨"everyFact", some Json.isArray, fun fact value next => everyItem fact (next · value)⟩)
    (by simp [Decorator.defaults]) (h.resolve_default
    (o := ⟨"notEqual", none, fun v w => !Json.strictEqual v w⟩)
    (by simp [Operator.defaults])), h.resolve_default
    (o := ⟨"doesNotContain", some Json.isArray, Json.excludes⟩) (by simp [Operator.defaults]), rfl,
    evaluate_congr rfl fun fact value hfact => ?_⟩
  exact everyItem_strictEqual hfact value

theorem Supplemented.someValue_equal (h : Supplemented r) (harray : value.isArray = true) :
    r.Agree "someValue:equal" "in" fact value := by
  refine (h.someValue (h.test_default (o := ⟨"equal", none, Json.strictEqual⟩)
    (by simp [Operator.defaults]))).agree (h.test_default
    (o := ⟨"in", none, fun v w => Json.includes w v⟩) (by simp [Operator.defaults])) ?_
  calc someItem value (fun item => Json.strictEqual fact item)
      = someItem value (fun item => Json.strictEqual item fact) := by
        simp only [Json.strictEqual_comm]
    _ = Json.includes value fact := someItem_strictEqual harray fact

theorem Supplemented.everyValue_notEqual (h : Supplemented r) (harray : value.isArray = true) :
    r.Agree "everyValue:notEqual" "notIn" fact value := by
  refine (h.everyValue (h.test_default (o := ⟨"notEqual", none, fun v w => !Json.strictEqual v w⟩)
    (by simp [Operator.defaults]))).agree (h.test_default
    (o := ⟨"notIn", none, fun v w => Json.excludes w v⟩) (by simp [Operator.defaults])) ?_
  calc everyItem value (fun item => !Json.strictEqual fact item)
      = everyItem value (fun item => !Json.strictEqual item fact) := by
        simp only [Json.strictEqual_comm]
    _ = Json.excludes value fact := everyItem_strictEqual harray fact

/-- Whatever operators were added and whatever names were resolved, the laws of the decorators hold
in front of every name that resolves, and quantified equalities are the operators at hand. -/
theorem Supplemented.decorator_algebra (h : Supplemented r) :
    (∀ name o, (r.resolve name).1 = .ok o → r.Laws name) ∧
    r.Synonyms "someFact:equal" "contains" ∧
    r.Synonyms "everyFact:notEqual" "doesNotContain" ∧
    ∀ fact value : Json, value.isArray = true →
      r.Agree "someValue:equal" "in" fact value ∧
      r.Agree "everyValue:notEqual" "notIn" fact value :=
  ⟨fun _ o ho => h.laws ⟨o, ho, rfl⟩, h.someFact_equal, h.everyFact_notEqual,
    fun _ _ harray => ⟨h.someValue_equal harray, h.everyValue_notEqual harray⟩⟩

/-- With an operator for adults added and a chain of it resolved, negation comes twice to nothing in
front of that chain, and an age that is no array passes no quantifier. -/
theorem decorator_algebra_adult :
    let adult : Operator := ⟨"adult", some Json.isNumeric, fun fact _ => fact == .ofNat 18⟩
    let r := ((withDefaults.addOperator adult).resolve "not:swap:adult").2
    r.Supplemented ∧
    r.Agree "not:not:not:swap:adult" "not:swap:adult" (.ofNat 18) .null ∧
    r.verdict "not:someFact:not:swap:adult" (.ofNat 18) .null = some true ∧
    r.verdict "everyFact:not:not:swap:adult" (.ofNat 18) .null = some false := by
  intro adult r
  have h : r.Supplemented := .resolve (.addOperator .start (by decide) rfl) _
  have hstocked : Stocked _ r := (stocked_start.addOperator (o := adult) (by decide) rfl).resolve _
  have hadult : r.Tests "adult" adult.evaluate := by
    refine ⟨adult, ?_, rfl⟩
    rw [resolve_of_get? (hstocked.coherent.registered_le (Table.get?_insert_self _ _ _))]
  have hname : "not:" ++ ("swap:" ++ "adult") = "not:swap:adult" := by decide
  obtain ⟨o, ho, -⟩ := hname ▸ h.not (h.swap hadult)
  have hlaws := h.decorator_algebra.1 "not:swap:adult" o ho
  exact ⟨h, hlaws.not_not _ _, (hlaws.not_someFact _ _).2 rfl⟩

end Registry
end Verdict
