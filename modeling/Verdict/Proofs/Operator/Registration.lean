import Verdict.Proofs.Operator.Run

/-!
# How long a registration lasts

A call names the operator that it registers or removes, and it strikes the names that show one of
its own: those that end in its operator, and those with its decorator before their last part.
Nothing else takes an entry from the table. So an operator stays as it was registered until a
call names or strikes it, and a name without a colon is never struck.
-/
namespace Verdict.Registry

namespace Call

/-- The name of the operator that the call registers or removes. -/
def operator? : Call → Option String
  | addOperator o => some o.name
  | removeOperator name => some name
  | _ => none

/-- Does the name show what the call replaces or removes? -/
def strikes : Call → String → Bool
  | addOperator o, key => endsWith o.name key
  | removeOperator name, key => endsWith name key
  | addDecorator d, key => isDecoratedBy d.name key
  | removeDecorator name, key => isDecoratedBy name key
  | resolve _, _ => false
  | get _, _ => false

/-- A name of one part is never struck. -/
theorem strikes_of_colon_not_mem {key : String} (h : ':' ∉ key.toList) (call : Call) :
    call.strikes key = false := by
  have hend (name : String) : endsWith name key = false := by
    rw [← Bool.not_eq_true, endsWith_iff]
    rintro ⟨front, rfl⟩
    simp at h
  have hdecorated (name : String) : isDecoratedBy name key = false := by
    rw [← Bool.not_eq_true, isDecoratedBy_iff, segments_eq_singleton h]
    exact List.not_mem_nil
  cases call with
  | addOperator o => exact hend o.name
  | removeOperator name => exact hend name
  | addDecorator d => exact hdecorated d.name
  | removeDecorator name => exact hdecorated name
  | resolve name => rfl
  | get name => rfl

end Call

variable {r : Registry} {key : String} {o : Operator}

/-- A call that does not name an entry leaves it, unless it strikes it. -/
theorem WellNamed.get?_after (hr : WellNamed r) {call : Call} (hother : call.operator? ≠ some key)
    (hget : r.operators.get? key = some o) :
    (r.after call).operators.get? key = if call.strikes key then none else some o := by
  have hretain (p : String → Bool) :
      (r.operators.retain fun key => !p key).get? key = if p key then none else some o := by
    rw [Table.get?_retain, hget]
    cases p key <;> rfl
  cases call with
  | addOperator o' =>
    have hne : key ≠ o'.name := fun he => hother (congrArg some he.symm)
    exact (Table.get?_insert_of_ne _ hne o').trans (hretain (endsWith o'.name))
  | removeOperator name =>
    have hne : key ≠ name := fun he => hother (congrArg some he.symm)
    have herase : (r.operators.erase name).get? key = some o := by
      rw [Table.get?_erase, if_neg hne, hget]
    change ((r.operators.erase name).retain fun key => !endsWith name key).get? key = _
    rw [Table.get?_retain, herase]
    change _ = if endsWith name key then none else some o
    cases endsWith name key <;> rfl
  | addDecorator d => exact hretain (isDecoratedBy d.name)
  | removeDecorator name => exact hretain (isDecoratedBy name)
  | resolve name => exact hr.coherent.get?_resolve_of_get? name hget
  | get name => exact hr.coherent.get?_resolve_of_get? name hget

theorem run_append (defaults : Bool) (calls calls' : List Call) :
    run defaults (calls ++ calls') = calls'.foldl after (run defaults calls) :=
  List.foldl_append

theorem get?_run_addOperator (defaults : Bool) (calls : List Call) (o : Operator) :
    (run defaults (calls ++ [.addOperator o])).operators.get? o.name = some o := by
  rw [run_append]
  exact Table.get?_insert_self _ o.name o

/-- Calls that neither name nor strike an entry leave it. -/
theorem get?_run_append {defaults : Bool} {calls rest : List Call}
    (hother : ∀ call ∈ rest, call.operator? ≠ some key)
    (hspared : ∀ call ∈ rest, call.strikes key = false)
    (hget : (run defaults calls).operators.get? key = some o) :
    (run defaults (calls ++ rest)).operators.get? key = some o := by
  induction rest generalizing calls with
  | nil => rwa [List.append_nil]
  | cons call rest ih =>
    have hafter := (wellNamed_run defaults calls).get?_after (hother call List.mem_cons_self) hget
    rw [hspared call List.mem_cons_self] at hafter
    have hstep : (run defaults (calls ++ [call])).operators.get? key = some o := by
      rw [run_append]
      exact hafter
    have hrest := ih (fun call' h => hother call' (List.mem_cons_of_mem call h))
      (fun call' h => hspared call' (List.mem_cons_of_mem call h)) hstep
    rwa [List.append_assoc] at hrest

/-- A call that strikes an entry takes it from the table. -/
theorem get?_run_of_strikes {defaults : Bool} {calls : List Call} {call : Call}
    (hother : call.operator? ≠ some key) (hstrikes : call.strikes key)
    (hget : (run defaults calls).operators.get? key = some o) :
    (run defaults (calls ++ [call])).operators.get? key = none := by
  have hafter := (wellNamed_run defaults calls).get?_after hother hget
  rw [if_pos hstrikes] at hafter
  rw [run_append]
  exact hafter

/-- Where some call of a list strikes a name, there is a first one. -/
theorem exists_first_strike {rest : List Call} (h : ∃ call ∈ rest, call.strikes key) :
    ∃ pre call, pre ++ [call] <+: rest ∧ call.strikes key ∧
      ∀ call' ∈ pre, call'.strikes key = false := by
  induction rest with
  | nil =>
    obtain ⟨call, hmem, -⟩ := h
    cases hmem
  | cons first rest ih =>
    by_cases hfirst : first.strikes key = true
    · exact ⟨[], first, ⟨rest, rfl⟩, hfirst, nofun⟩
    · obtain ⟨call, hmem, hcall⟩ := h
      have hrest : ∃ call ∈ rest, call.strikes key := by
        rcases List.mem_cons.1 hmem with rfl | hmem
        · exact absurd hcall hfirst
        · exact ⟨call, hmem, hcall⟩
      obtain ⟨pre, call, hpre, hstrikes, hbefore⟩ := ih hrest
      refine ⟨first :: pre, call, List.cons_prefix_cons.2 ⟨rfl, hpre⟩, hstrikes, ?_⟩
      intro call' hmem
      rcases List.mem_cons.1 hmem with rfl | hmem
      · simpa using hfirst
      · exact hbefore call' hmem

/-- After an operator was registered, as long as no call names it: it is there at all times and its
name resolves to it, just if no call strikes the name. A name without a colon is never struck. -/
theorem registration_lasts_iff (defaults : Bool) (calls : List Call) (o : Operator)
    (rest : List Call) (hother : ∀ call ∈ rest, call.operator? ≠ some o.name) :
    ((∀ pre, pre <+: rest →
        let r := run defaults (calls ++ [.addOperator o] ++ pre)
        r.operators.contains o.name ∧ (r.resolve o.name).1 = .ok o) ↔
      ∀ call ∈ rest, call.strikes o.name = false) ∧
    (':' ∉ o.name.toList → ∀ call : Call, call.strikes o.name = false) := by
  have hget := get?_run_addOperator defaults calls o
  refine ⟨⟨fun hlasts => ?_, fun hspared pre hpre => ?_⟩, Call.strikes_of_colon_not_mem⟩
  · apply Classical.byContradiction
    intro hnot
    obtain ⟨call, hmem, hstrikes⟩ : ∃ call ∈ rest, call.strikes o.name := by simpa using hnot
    obtain ⟨pre, call, hpre, hstrikes, hbefore⟩ := exists_first_strike ⟨call, hmem, hstrikes⟩
    have hsub {call' : Call} (h : call' ∈ pre ++ [call]) : call' ∈ rest := hpre.subset h
    have hkept := get?_run_append (fun call' h => hother call' (hsub (List.mem_append_left _ h)))
      hbefore hget
    have hstruck := get?_run_of_strikes (hother call (hsub (by simp))) hstrikes hkept
    have hthere := (hlasts _ hpre).1
    rw [← List.append_assoc, Table.contains, hstruck] at hthere
    cases hthere
  · have hkept := get?_run_append (fun call h => hother call (hpre.subset h))
      (fun call h => hspared call (hpre.subset h)) hget
    exact ⟨Option.isSome_iff_exists.2 ⟨o, hkept⟩, by rw [resolve_of_get? hkept]⟩

/-- A registered name of two parts outlasts calls on names that it does not show. -/
theorem registration_lasts_checked :
    let o : Operator := ⟨"vip:check", none, fun _ _ => true⟩
    let rest : List Call := [.addOperator ⟨"checked", none, fun _ _ => false⟩,
      .resolve "not:vip:check", .removeDecorator "not", .removeOperator "equal"]
    (∀ call ∈ rest, call.operator? ≠ some o.name) ∧
      let r := run true ([.addOperator o] ++ rest)
      r.operators.contains o.name ∧ (r.resolve o.name).1 = .ok o := by
  intro o rest
  have hother : ∀ call ∈ rest, call.operator? ≠ some o.name := by decide
  have hspared : ∀ call ∈ rest, call.strikes o.name = false := by decide +kernel
  have hlasts := (registration_lasts_iff true [] o rest hother).1.2 hspared
  exact ⟨hother, hlasts rest List.prefix_rfl⟩

/-- An operator is lost when another one is registered under the last part of its name. -/
theorem registration_struck :
    let o : Operator := ⟨"vip:check", none, fun _ _ => true⟩
    let o' : Operator := ⟨"check", none, fun _ _ => false⟩
    let r := run true [.addOperator o, .addOperator o']
    o'.name ≠ o.name ∧ r.operators.contains o.name = false ∧
      (r.resolve o.name).1 = .error (.unknownDecorator "vip" "vip:check") := by
  refine ⟨by decide, by decide +kernel, ?_⟩
  rfl

end Verdict.Registry
