import Verdict.Proofs.Operator.Plain

/-!
# Runs of a registry

Any calls, from a registry that is empty or holds the operators and decorators at hand. Beside
the registry the run keeps the operators that were registered and are still there. They and
the current decorators alone decide what every name resolves to, and each remembered composition
is what they give for its name. Calls that only ask leave nothing but such compositions.
-/
namespace Verdict.Registry

/-- A call on a registry. -/
inductive Call where
  | addOperator (o : Operator)
  | removeOperator (name : String)
  | addDecorator (d : Decorator)
  | removeDecorator (name : String)
  | resolve (name : String)
  | get (name : String)

def after (r : Registry) : Call → Registry
  | .addOperator o => r.addOperator o
  | .removeOperator name => (r.removeOperator name).2
  | .addDecorator d => r.addDecorator d
  | .removeDecorator name => (r.removeDecorator name).2
  | .resolve name => (r.resolve name).2
  | .get name => (r.get? name).2

def start (defaults : Bool) : Registry := if defaults then withDefaults else empty

/-- The registry after some calls. -/
def run (defaults : Bool) (calls : List Call) : Registry := calls.foldl after (start defaults)

/-- A registry, and the operators that were registered in it under their names and have been
neither deleted nor replaced since. -/
structure Annals where
  registry : Registry
  registered : Table Operator

namespace Annals

def start (defaults : Bool) : Annals where
  registry := .start defaults
  registered := (Registry.start defaults).operators

def after (a : Annals) (call : Call) : Annals where
  registry := a.registry.after call
  registered :=
    let left := a.registered.retain (a.registry.after call).operators.contains
    match call with
    | .addOperator o => left.insert o.name o
    | _ => left

def run (defaults : Bool) (calls : List Call) : Annals := calls.foldl after (start defaults)

theorem registry_run (defaults : Bool) (calls : List Call) :
    (run defaults calls).registry = Registry.run defaults calls := by
  have h (a : Annals) : (calls.foldl after a).registry = calls.foldl Registry.after a.registry := by
    induction calls generalizing a with
    | nil => rfl
    | cons call rest ih => exact ih (a.after call)
  exact h (start defaults)

end Annals

/-- What holds of the entries of a table and of those inserted into it holds of all. -/
theorem get?_insertAll_of_forall {α : Type} {P : String → α → Prop} {l : List (String × α)}
    (hl : ∀ e ∈ l, P e.1 e.2) {t : Table α} (ht : ∀ {key v}, t.get? key = some v → P key v)
    {key : String} {v : α} (h : (t.insertAll l).get? key = some v) : P key v := by
  induction l generalizing t with
  | nil => exact ht h
  | cons e rest ih =>
    refine ih (fun e' he' => hl e' (List.mem_cons_of_mem _ he')) (fun h' => ?_) h
    rcases Table.get?_insert_eq_some_iff.1 h' with ⟨rfl, rfl⟩ | ⟨-, h'⟩
    · exact hl e List.mem_cons_self
    · exact ht h'

theorem get?_ofList_of_forall {α : Type} {P : String → α → Prop} {l : List (String × α)}
    (hl : ∀ e ∈ l, P e.1 e.2) {key : String} {v : α} (h : (Table.ofList l).get? key = some v) :
    P key v :=
  get?_insertAll_of_forall hl (t := .empty) (fun h => by cases h) h

theorem wellNamed_start (defaults : Bool) : WellNamed (start defaults) := by
  cases defaults with
  | false => exact ⟨nofun, nofun⟩
  | true =>
    exact ⟨get?_ofList_of_forall (P := fun key (o : Operator) => o.name = key) (by simp),
      get?_ofList_of_forall (P := fun key (d : Decorator) => d.name = key) (by simp)⟩

variable {registered : Table Operator} {r : Registry}

theorem Coherent.retain_contains {t : Table Operator} {p : String → Bool}
    (hc : Coherent registered r)
    (ht : ∀ {key o}, r.operators.get? key = some o → t.contains key = !p key) (key : String) :
    (registered.retain t.contains).get? key = (registered.retain fun key => !p key).get? key := by
  rw [Table.get?_retain, Table.get?_retain]
  cases hreg : registered.get? key with
  | none => simp
  | some o => rw [ht (hc.registered_le hreg)]

theorem contains_retain {t : Table Operator} {q : String → Bool} {key : String} {o : Operator}
    (h : t.get? key = some o) : (t.retain q).contains key = q key := by
  rw [Table.contains, Table.get?_retain, h]
  cases q key <;> rfl

/-- The registered operators whose names do not end in the new one's, and the new one. -/
theorem Coherent.left_addOperator (hc : Coherent registered r) (o : Operator) :
    Coherent ((registered.retain fun key => !endsWith o.name key).insert o.name o)
      (r.addOperator o) :=
  (hc.retain (hereditary_endsWith o.name)).insert fun h => by
    simpa using (Table.get?_retain_eq_some_iff.1 h).1

theorem Coherent.addOperator (hc : Coherent registered r) (o : Operator) :
    Coherent ((registered.retain (r.addOperator o).operators.contains).insert o.name o)
      (r.addOperator o) := by
  refine (hc.left_addOperator o).congr fun key => ?_
  by_cases hkey : key = o.name
  · subst hkey
    rw [Table.get?_insert_self, Table.get?_insert_self]
  · rw [Table.get?_insert_of_ne _ hkey, Table.get?_insert_of_ne _ hkey, Table.get?_retain,
      Table.get?_retain]
    cases hreg : registered.get? key with
    | none => simp
    | some o' =>
      have hcontains : (r.addOperator o).operators.contains key = !endsWith o.name key := by
        have h := contains_retain (q := fun key => !endsWith o.name key) (hc.registered_le hreg)
        rw [← h, Table.contains, Table.contains]
        exact congrArg Option.isSome (Table.get?_insert_of_ne _ hkey o)
      rw [hcontains]

theorem operators_removeOperator (r : Registry) (name : String) :
    (r.removeOperator name).2.operators = r.operators.retain fun key => !isOrEndsWith name key := by
  simp only [Registry.removeOperator, forgetOperator, Table.erase, Table.retain,
    List.filter_filter]
  congr 2
  funext e
  simp [isOrEndsWith, bne, Bool.and_comm]

theorem Coherent.left_removeOperator (hc : Coherent registered r) (name : String) :
    Coherent (registered.retain fun key => !isOrEndsWith name key) (r.removeOperator name).2 := by
  have hleft := hc.retain (hereditary_isOrEndsWith name)
  rwa [← operators_removeOperator] at hleft

theorem Coherent.removeOperator (hc : Coherent registered r) (name : String) :
    Coherent (registered.retain (r.removeOperator name).2.operators.contains)
      (r.removeOperator name).2 := by
  refine (hc.left_removeOperator name).congr fun key => (hc.retain_contains (fun h => ?_) key).symm
  rw [operators_removeOperator, contains_retain h]

theorem Coherent.left_addDecorator (hc : Coherent registered r) (d : Decorator) :
    Coherent (registered.retain fun key => !isDecoratedBy d.name key) (r.addDecorator d) :=
  (hc.retain (hereditary_isDecoratedBy d.name)).setDecorators d.name
    (r.decorators.insert d.name d)
    (fun h => by
      rcases Table.get?_insert_eq_some_iff.1 h with ⟨rfl, rfl⟩ | ⟨-, h⟩
      · rfl
      · exact hc.decorator_name h)
    (fun key hkey => Table.get?_insert_of_ne _ hkey _)
    (fun h => by simpa using (Table.get?_retain_eq_some_iff.1 h).1)

theorem Coherent.addDecorator (hc : Coherent registered r) (d : Decorator) :
    Coherent (registered.retain (r.addDecorator d).operators.contains) (r.addDecorator d) :=
  (hc.left_addDecorator d).congr fun key =>
    (hc.retain_contains (fun h => contains_retain h) key).symm

theorem Coherent.left_removeDecorator (hc : Coherent registered r) (name : String) :
    Coherent (registered.retain fun key => !isDecoratedBy name key) (r.removeDecorator name).2 :=
  (hc.retain (hereditary_isDecoratedBy name)).setDecorators name
    (r.decorators.erase name)
    (fun {key d} h => by
      rw [Table.get?_erase] at h
      split at h
      · cases h
      · exact hc.decorator_name h)
    (fun key hkey => by simp [Table.get?_erase, hkey])
    (fun h => by simpa using (Table.get?_retain_eq_some_iff.1 h).1)

theorem Coherent.removeDecorator (hc : Coherent registered r) (name : String) :
    Coherent (registered.retain (r.removeDecorator name).2.operators.contains)
      (r.removeDecorator name).2 :=
  (hc.left_removeDecorator name).congr fun key =>
    (hc.retain_contains (fun h => contains_retain h) key).symm

/-- Resolving deletes no entry and replaces none. -/
theorem Coherent.get?_resolve_of_get? (hc : Coherent registered r) (name : String) {key : String}
    {o : Operator} (h : r.operators.get? key = some o) :
    (r.resolve name).2.operators.get? key = some o := by
  cases hget : r.operators.get? name with
  | some o' => rwa [resolve_of_get? hget]
  | none =>
    have hnone : r.operators.get? (":".intercalate (segments name)) = none := by
      rwa [intercalate_segments]
    cases hpeel : r.peel name (segments name) with
    | error e => simpa only [resolve, hget, hpeel] using h
    | ok found =>
      have hpeeled := peeled_of_peel_eq_ok hnone hpeel
      simp only [resolve, hget, hpeel]
      rw [(hc.compose name (fun _ => colon_not_mem_of_mem_segments) hpeeled).2.2.2 key
        (.inr (by simp [h])), h]

theorem Coherent.resolve (hc : Coherent registered r) (name : String) :
    Coherent (registered.retain (r.resolve name).2.operators.contains) (r.resolve name).2 := by
  refine (hc.resolve_snd name).congr fun key => ?_
  rw [Table.get?_retain]
  cases hreg : registered.get? key with
  | none => simp
  | some o =>
    have h := hc.get?_resolve_of_get? name (hc.registered_le hreg)
    simp [Table.contains, h]

namespace Annals

theorem coherent_start (defaults : Bool) :
    Coherent (start defaults).registered (start defaults).registry :=
  (wellNamed_start defaults).coherent

theorem coherent_after {a : Annals} (h : Coherent a.registered a.registry) (call : Call) :
    Coherent (a.after call).registered (a.after call).registry := by
  cases call with
  | addOperator o => exact h.addOperator o
  | removeOperator name => exact h.removeOperator name
  | addDecorator d => exact h.addDecorator d
  | removeDecorator name => exact h.removeDecorator name
  | resolve name => exact h.resolve name
  | get name => exact h.resolve name

theorem coherent_run (defaults : Bool) (calls : List Call) :
    Coherent (run defaults calls).registered (run defaults calls).registry := by
  have h {a : Annals} (ha : Coherent a.registered a.registry) :
      Coherent (calls.foldl after a).registered (calls.foldl after a).registry := by
    induction calls generalizing a with
    | nil => exact ha
    | cons call rest ih => exact ih (coherent_after ha call)
  exact h (coherent_start defaults)

/-- After any calls every name resolves to what the registered operators that are left and the
current decorators give without memory. Those operators all stand in the table as they were
registered, and any other entry is what they and the decorators give for its name. -/
theorem resolve_eq_plain (defaults : Bool) (calls : List Call) :
    let a := run defaults calls
    (∀ name, (a.registry.resolve name).1 = plain a.registered a.registry.decorators name) ∧
      (∀ key o, a.registered.get? key = some o → a.registry.operators.get? key = some o) ∧
      ∀ key o, a.registry.operators.get? key = some o →
        plain a.registered a.registry.decorators key = .ok o :=
  have h := coherent_run defaults calls
  ⟨h.resolve_fst, fun _ _ => h.registered_le, fun _ _ => h.plain_eq⟩

end Annals

theorem wellNamed_run (defaults : Bool) (calls : List Call) : WellNamed (run defaults calls) := by
  rw [← Annals.registry_run]
  exact (Annals.coherent_run defaults calls).wellNamed

/-! What a run leaves beside compositions, it leaves also without the calls that only ask. -/

/-- Does the call register or remove something? -/
def Call.registers : Call → Bool
  | resolve _ => false
  | get _ => false
  | _ => true

/-- The first registry has the operators of the second and compositions of them. -/
structure Composed (r fresh : Registry) : Prop where
  coherent : Coherent fresh.operators r
  decorators_eq : r.decorators = fresh.decorators

variable {fresh : Registry}

theorem Composed.after (h : Composed r fresh) {call : Call} (hcall : call.registers) :
    Composed (r.after call) (fresh.after call) := by
  cases call with
  | addOperator o => exact ⟨h.coherent.left_addOperator o, h.decorators_eq⟩
  | removeOperator name =>
    refine ⟨?_, h.decorators_eq⟩
    change Coherent (fresh.removeOperator name).2.operators _
    rw [operators_removeOperator]
    exact h.coherent.left_removeOperator name
  | addDecorator d =>
    exact ⟨h.coherent.left_addDecorator d, congrArg (·.insert d.name d) h.decorators_eq⟩
  | removeDecorator name =>
    exact ⟨h.coherent.left_removeDecorator name, congrArg (·.erase name) h.decorators_eq⟩
  | resolve name => cases hcall
  | get name => cases hcall

theorem Composed.after_asking (h : Composed r fresh) {call : Call} (hcall : ¬ call.registers) :
    Composed (r.after call) fresh := by
  have hresolve (name : String) : Composed (r.resolve name).2 fresh :=
    ⟨h.coherent.resolve_snd name, (decorators_resolve r name).trans h.decorators_eq⟩
  cases call with
  | resolve name => exact hresolve name
  | get name => exact hresolve name
  | _ => exact absurd rfl hcall

theorem composed_run (defaults : Bool) (calls : List Call) :
    Composed (run defaults calls) (run defaults (calls.filter Call.registers)) := by
  have hfold {r fresh : Registry} (h : Composed r fresh) :
      Composed (calls.foldl after r) ((calls.filter Call.registers).foldl after fresh) := by
    induction calls generalizing r fresh with
    | nil => exact h
    | cons call rest ih =>
      by_cases hcall : call.registers
      · rw [List.filter_cons_of_pos hcall]
        exact ih (h.after hcall)
      · rw [List.filter_cons_of_neg hcall]
        exact ih (h.after_asking hcall)
  exact hfold ⟨(wellNamed_start defaults).coherent, rfl⟩

end Verdict.Registry
