import Verdict.Proofs.Operator.Run

/-!
# The grammar of operator names

A name resolves just if it is made of names of decorators, each with a colon after it, and of the
key of an operator. The operator with the longest such key counts. What is composed nests the
decorators around it, and the table remembers this operator and all those nested in it.
-/
namespace Verdict

/-- Does the guard of the decorator alone let the fact pass? -/
def Decorator.accepts (d : Decorator) (fact : Json) : Bool :=
  match d.guard with
  | none => true
  | some guard => guard fact

namespace Registry

/-- The test of an operator inside decorators. Each of them asks the test inside it, which is that
of the decorators after it with their guards. -/
def nest (test : Json → Json → Bool) : List Decorator → Json → Json → Bool
  | [] => test
  | d :: ds => fun fact value => d.accepts fact && d.callback fact value (nest test ds)

/-- The name is made of parts without colons that name the decorators, and the key of the operator
after them. -/
inductive Spells (r : Registry) : String → List Decorator → Operator → Prop
  | operator {key : String} {o : Operator} (hget : r.operators.get? key = some o) :
      Spells r key [] o
  | decorated {part rest : String} {d : Decorator} {ds : List Decorator} {o : Operator}
      (hfree : ':' ∉ part.toList) (hd : r.decorators.get? part = some d) (h : Spells r rest ds o) :
      Spells r (part ++ ":" ++ rest) (d :: ds) o

/-- The name is spelled with the fewest decorators, so that the key of the operator is longest. -/
structure SpellsLongest (r : Registry) (name : String) (ds : List Decorator) (o : Operator) :
    Prop where
  spells : r.Spells name ds o
  length_le : ∀ ds' o', r.Spells name ds' o' → ds.length ≤ ds'.length

/-- The name without its first parts. -/
def ending (name : String) (n : Nat) : String := ":".intercalate ((segments name).drop n)

/-- The fault of a name that cannot be spelled: the first part before the last one that names no
decorator, or that there is no such operator. -/
def unknown (r : Registry) (name : String) : Fault :=
  match (segments name).dropLast.find? fun part => !r.decorators.contains part with
  | some part => .unknownDecorator part name
  | none => .unknownOperator name

/-- What comes of a name that is spelled with these decorators and this operator. -/
structure Composition (r : Registry) (name : String) (ds : List Decorator) (o composed : Operator)
    (after : Registry) : Prop where
  name_eq : composed.name = name
  /-- Only the guard of the first decorator counts here, or that of the operator if it has none. -/
  accepts_eq : composed.accepts = (ds.head?.map Decorator.accepts).getD o.accepts
  evaluate_eq : composed.evaluate = nest o.evaluate ds
  /-- The endings in front of the key come in, each with what it resolves to. -/
  added : ∀ i < ds.length, r.operators.get? (ending name i) = none ∧
    after.operators.get? (ending name i) = some ((ds.drop i).foldr Decorator.decorate o)
  kept : ∀ key, (∀ i < ds.length, key ≠ ending name i) →
    after.operators.get? key = r.operators.get? key
  decorators_eq : after.decorators = r.decorators
  again : after.resolve name = (.ok composed, after)

variable {r : Registry} {name : String} {parts : List String} {ds : List Decorator} {o : Operator}

theorem evaluate_foldr_decorate (ds : List Decorator) (o : Operator) :
    (ds.foldr Decorator.decorate o).evaluate = nest o.evaluate ds := by
  induction ds with
  | nil => rfl
  | cons d ds ih =>
    rw [nest, ← ih]
    rfl

theorem compose_fst (r : Registry) (o : Operator) (ds : List Decorator) :
    (r.compose o ds).1 = ds.foldr Decorator.decorate o := by
  induction ds with
  | nil => rfl
  | cons d ds ih =>
    rw [List.foldr_cons, ← ih]
    rfl

/-! Spelling and peeling. -/

theorem Peeled.spells (hfree : ∀ part ∈ parts, ':' ∉ part.toList) (h : Peeled r parts ds o) :
    r.Spells (":".intercalate parts) ds o := by
  induction h with
  | operator hne hget => exact .operator hget
  | @decorated part rest d ds o hnone hd hrest ih =>
    rw [String.intercalate_cons_of_ne_nil hrest.ne_nil]
    exact .decorated (hfree part (by simp)) hd (ih fun part' h => hfree part' (by simp [h]))

/-- However a name is spelled, peeling it takes off no more decorators. -/
theorem Spells.exists_peeled (h : r.Spells name ds o) :
    ∃ ds' o', Peeled r (segments name) ds' o' ∧ ds'.length ≤ ds.length := by
  induction h with
  | @operator key o hget =>
    refine ⟨[], o, .operator (segments_ne_nil key) ?_, Nat.le_refl 0⟩
    rwa [intercalate_segments]
  | @decorated part rest d ds o hfree hd h ih =>
    cases hget : r.operators.get? (part ++ ":" ++ rest) with
    | some o' =>
      refine ⟨[], o', .operator (segments_ne_nil _) ?_, Nat.zero_le _⟩
      rwa [intercalate_segments]
    | none =>
      obtain ⟨ds', o', hpeeled, hlength⟩ := ih
      refine ⟨d :: ds', o', ?_, Nat.succ_le_succ hlength⟩
      have hsegments : segments (part ++ ":" ++ rest) = part :: segments rest := by
        rw [segments_append, segments_eq_singleton hfree]
        rfl
      rw [← intercalate_segments (part ++ ":" ++ rest), hsegments] at hget
      rw [hsegments]
      exact .decorated hget hd hpeeled

/-- Peeling comes to one operator only. -/
theorem Peeled.unique {ds' : List Decorator} {o' : Operator} (h : Peeled r parts ds o)
    (h' : Peeled r parts ds' o') : ds = ds' ∧ o = o' := by
  induction h generalizing ds' o' with
  | operator hne hget =>
    cases h' with
    | operator _ hget' => exact ⟨rfl, Option.some.inj (hget.symm.trans hget')⟩
    | decorated hnone _ _ => cases hnone.symm.trans hget
  | decorated hnone hd _ ih =>
    cases h' with
    | operator _ hget' => cases hnone.symm.trans hget'
    | decorated _ hd' hrest' =>
      obtain ⟨rfl, rfl⟩ := ih hrest'
      cases hd.symm.trans hd'
      exact ⟨rfl, rfl⟩

theorem Peeled.spellsLongest (h : Peeled r (segments name) ds o) : r.SpellsLongest name ds o := by
  have hspells := h.spells fun _ => colon_not_mem_of_mem_segments
  rw [intercalate_segments] at hspells
  refine ⟨hspells, fun ds' o' h' => ?_⟩
  obtain ⟨ds'', o'', hpeeled, hlength⟩ := h'.exists_peeled
  obtain ⟨rfl, rfl⟩ := h.unique hpeeled
  exact hlength

/-- The key after so many decorators is that of an operator, and this is the only such spelling. -/
theorem Spells.unique {ds' : List Decorator} {o' : Operator} (h : r.Spells name ds o)
    (h' : r.Spells name ds' o') (hlength : ds.length = ds'.length) : ds = ds' ∧ o = o' := by
  induction h generalizing ds' o' with
  | operator hget =>
    cases h' with
    | operator hget' => exact ⟨rfl, Option.some.inj (hget.symm.trans hget')⟩
    | decorated _ _ _ => cases hlength
  | @decorated part rest d ds o hfree hd _ ih =>
    generalize hname : part ++ ":" ++ rest = whole at h'
    cases h' with
    | operator _ => cases hlength
    | @decorated part' rest' d' ds' o' hfree' hd' hrest' =>
      -- the first part is what stands before the first colon
      have hparts : part :: segments rest = part' :: segments rest' := by
        have h := congrArg segments hname
        rwa [segments_append, segments_append, segments_eq_singleton hfree,
          segments_eq_singleton hfree'] at h
      obtain ⟨rfl, hrest⟩ := List.cons.inj hparts
      obtain rfl : rest = rest' := by
        rw [← intercalate_segments rest, hrest, intercalate_segments]
      obtain ⟨rfl, rfl⟩ := ih hrest' (Nat.succ.inj hlength)
      cases hd.symm.trans hd'
      exact ⟨rfl, rfl⟩

theorem SpellsLongest.peeled (h : r.SpellsLongest name ds o) : Peeled r (segments name) ds o := by
  obtain ⟨ds', o', hpeeled, hlength⟩ := h.spells.exists_peeled
  have hspells := hpeeled.spellsLongest.spells
  have hle := h.length_le ds' o' hspells
  obtain ⟨rfl, rfl⟩ := h.spells.unique hspells (Nat.le_antisymm hle hlength)
  exact hpeeled

theorem Peeled.peel_eq_ok (hnone : r.operators.get? (":".intercalate parts) = none)
    (h : Peeled r parts ds o) : r.peel name parts = .ok (ds, o) := by
  induction h with
  | operator _ hget => cases hnone.symm.trans hget
  | @decorated part rest d ds o _ hd hrest ih =>
    obtain ⟨part', rest, rfl⟩ := List.exists_cons_of_ne_nil hrest.ne_nil
    cases hget : r.operators.get? (":".intercalate (part' :: rest)) with
    | some o' =>
      obtain ⟨rfl, rfl⟩ := hrest.unique (.operator (List.cons_ne_nil _ _) hget)
      simp only [peel, hd, hget]
    | none =>
      simp only [peel, hd, hget, ih hget]
      rfl

theorem peel_eq_error {e : Fault} (h : r.peel name parts = .error e) :
    e = match parts.dropLast.find? fun part => !r.decorators.contains part with
      | some part => .unknownDecorator part name
      | none => .unknownOperator name := by
  induction parts with
  | nil =>
    cases h
    rfl
  | cons part rest ih =>
    cases rest with
    | nil =>
      cases h
      rfl
    | cons part' rest =>
      rw [List.dropLast_cons_of_ne_nil (List.cons_ne_nil part' rest), List.find?_cons]
      cases hd : r.decorators.get? part with
      | none =>
        simp only [peel, hd] at h
        cases h
        simp [Table.contains, hd]
      | some d =>
        have hthere : (!r.decorators.contains part) = false := by simp [Table.contains, hd]
        rw [hthere]
        cases hget : r.operators.get? (":".intercalate (part' :: rest)) with
        | some o =>
          simp only [peel, hd, hget] at h
          cases h
        | none =>
          simp only [peel, hd, hget] at h
          cases hrest : r.peel name (part' :: rest) with
          | ok found =>
            rw [hrest] at h
            cases h
          | error e' =>
            rw [hrest] at h
            cases h
            exact ih hrest

/-! What composing adds to the table. -/

theorem Peeled.get?_of_nil (h : Peeled r parts [] o) :
    r.operators.get? (":".intercalate parts) = some o := by
  cases h with
  | operator _ hget => exact hget

theorem Peeled.length_lt (h : Peeled r parts ds o) : ds.length < parts.length := by
  induction h with
  | operator hne _ => exact List.length_pos_iff.2 hne
  | decorated _ _ _ ih => exact Nat.succ_lt_succ ih

/-- The end of a name without its first part is another name. -/
theorem intercalate_drop_ne {part : String} {rest : List String} {i : Nat} (hi : i < rest.length)
    (hfree : ∀ part' ∈ part :: rest, ':' ∉ part'.toList) :
    ":".intercalate (rest.drop i) ≠ ":".intercalate (part :: rest) := by
  intro he
  have hne : rest.drop i ≠ [] := by simpa using hi
  have hparts := congrArg segments he
  rw [segments_intercalate hne fun part' h => hfree part' (by simp [List.mem_of_mem_drop h]),
    segments_intercalate (List.cons_ne_nil _ _) hfree] at hparts
  have hlength := congrArg List.length hparts
  rw [List.length_drop, List.length_cons] at hlength
  omega

/-- Composing puts in one operator for each decorator, under the end of the name that begins with
it. -/
theorem get?_compose (hr : r.WellNamed) (hfree : ∀ part ∈ parts, ':' ∉ part.toList)
    (h : Peeled r parts ds o) :
    (ds.foldr Decorator.decorate o).name = ":".intercalate parts ∧
      (∀ i < ds.length, r.operators.get? (":".intercalate (parts.drop i)) = none ∧
        (r.compose o ds).2.operators.get? (":".intercalate (parts.drop i)) =
          some ((ds.drop i).foldr Decorator.decorate o)) ∧
      ∀ key, (∀ i < ds.length, key ≠ ":".intercalate (parts.drop i)) →
        (r.compose o ds).2.operators.get? key = r.operators.get? key := by
  induction h with
  | operator hne hget =>
    exact ⟨hr.operator_name hget, fun i hi => absurd hi (Nat.not_lt_zero i), fun _ _ => rfl⟩
  | @decorated part rest d ds o hnone hd hrest ih =>
    obtain ⟨hname, hadded, hkept⟩ := ih fun part' h => hfree part' (by simp [h])
    have hlayer : ((d :: ds).foldr Decorator.decorate o).name = ":".intercalate (part :: rest) := by
      rw [String.intercalate_cons_of_ne_nil hrest.ne_nil, ← hname, ← hr.decorator_name hd]
      rfl
    have hoperators : (r.compose o (d :: ds)).2.operators =
        (r.compose o ds).2.operators.insert (":".intercalate (part :: rest))
          ((d :: ds).foldr Decorator.decorate o) := by
      rw [← hlayer, ← compose_fst r]
      rfl
    refine ⟨hlayer, fun i hi => ?_, fun key hkey => ?_⟩
    · cases i with
      | zero =>
        refine ⟨hnone, ?_⟩
        rw [hoperators]
        exact Table.get?_insert_self _ _ _
      | succ i =>
        obtain ⟨hnew, hget⟩ := hadded i (Nat.lt_of_succ_lt_succ hi)
        refine ⟨hnew, ?_⟩
        have hlt : i < rest.length :=
          Nat.lt_trans (Nat.lt_of_succ_lt_succ hi) hrest.length_lt
        rw [hoperators]
        exact (Table.get?_insert_of_ne _ (intercalate_drop_ne hlt hfree) _).trans hget
    · have hne : key ≠ ":".intercalate (part :: rest) := hkey 0 (Nat.zero_lt_succ _)
      rw [hoperators, Table.get?_insert_of_ne _ hne]
      exact hkept key fun i hi => hkey (i + 1) (Nat.succ_lt_succ hi)

/-- Peeling that comes to an operator makes the name resolve to it inside the decorators. -/
theorem Peeled.resolve_eq (h : Peeled r (segments name) ds o) :
    r.resolve name = (.ok (ds.foldr Decorator.decorate o), (r.compose o ds).2) := by
  have hwhole := intercalate_segments name
  cases hget : r.operators.get? name with
  | some o' =>
    obtain ⟨rfl, rfl⟩ := h.unique (.operator (segments_ne_nil name) (hwhole.symm ▸ hget))
    exact resolve_of_get? hget
  | none =>
    simp only [resolve, hget, h.peel_eq_ok (hwhole.symm ▸ hget), compose_fst]

theorem Peeled.composition (hr : r.WellNamed) (h : Peeled r (segments name) ds o) :
    Composition r name ds o (ds.foldr Decorator.decorate o) (r.resolve name).2 := by
  obtain ⟨hname, hadded, hkept⟩ :=
    get?_compose hr (fun _ => colon_not_mem_of_mem_segments) h
  rw [intercalate_segments] at hname
  rw [h.resolve_eq]
  refine ⟨hname, ?_, evaluate_foldr_decorate ds o, hadded, hkept, decorators_compose o ds, ?_⟩
  · cases ds <;> rfl
  · have hget : (r.compose o ds).2.operators.get? name =
        some (ds.foldr Decorator.decorate o) := by
      cases ds with
      | nil =>
        have hwhole := h.get?_of_nil
        rwa [intercalate_segments] at hwhole
      | cons d ds =>
        have hfirst := (hadded 0 (Nat.zero_lt_succ _)).2
        rwa [List.drop_zero, List.drop_zero, intercalate_segments] at hfirst
    exact resolve_of_get? hget

/-- A name that is not spelled fails to resolve, and leaves everything as it is. -/
theorem resolve_eq_unknown (h : ¬ ∃ ds o, r.Spells name ds o) :
    r.resolve name = (.error (r.unknown name), r) := by
  have hnone : r.operators.get? name = none := by
    cases hget : r.operators.get? name with
    | none => rfl
    | some o => exact absurd ⟨[], o, .operator hget⟩ h
  cases hpeel : r.peel name (segments name) with
  | error e =>
    simp only [resolve, hnone, hpeel]
    rw [peel_eq_error hpeel, unknown]
  | ok found =>
    have hpeeled := peeled_of_peel_eq_ok (by rwa [intercalate_segments]) hpeel
    exact absurd ⟨_, _, hpeeled.spellsLongest.spells⟩ h

/-- After any calls, a name resolves just if it is spelled by decorators and the key of an operator,
and then it resolves to the operator with the longest such key inside these decorators: that is
remembered with all that is nested in it, and resolving again finds it and changes nothing. Any
other name is unknown for its first part that names no decorator, or as a whole, and then nothing
changes. -/
theorem resolve_grammar (defaults : Bool) (calls : List Call) (name : String) :
    let r := run defaults calls
    ((∃ composed, (r.resolve name).1 = .ok composed) ↔ ∃ ds o, r.Spells name ds o) ∧
      ((∃ ds o, r.Spells name ds o) → ∃ ds o, r.SpellsLongest name ds o) ∧
      (∀ ds o, r.SpellsLongest name ds o →
        ∃ composed, (r.resolve name).1 = .ok composed ∧
          Composition r name ds o composed (r.resolve name).2) ∧
      ((¬ ∃ ds o, r.Spells name ds o) → r.resolve name = (.error (r.unknown name), r)) := by
  intro r
  have hlongest (h : ∃ ds o, r.Spells name ds o) : ∃ ds o, r.SpellsLongest name ds o := by
    obtain ⟨ds, o, hspells⟩ := h
    obtain ⟨ds', o', hpeeled, -⟩ := hspells.exists_peeled
    exact ⟨ds', o', hpeeled.spellsLongest⟩
  have hcomposed (ds : List Decorator) (o : Operator) (h : r.SpellsLongest name ds o) :
      ∃ composed, (r.resolve name).1 = .ok composed ∧
        Composition r name ds o composed (r.resolve name).2 := by
    have hpeeled := h.peeled
    exact ⟨_, by rw [hpeeled.resolve_eq], hpeeled.composition (wellNamed_run defaults calls)⟩
  refine ⟨⟨fun ⟨composed, hok⟩ => ?_, fun h => ?_⟩, hlongest, hcomposed, resolve_eq_unknown⟩
  · apply Classical.byContradiction
    intro hnot
    rw [resolve_eq_unknown hnot] at hok
    cases hok
  · obtain ⟨ds, o, hspells⟩ := hlongest h
    obtain ⟨composed, hok, -⟩ := hcomposed ds o hspells
    exact ⟨composed, hok⟩

/-- The second part is at fault, though the last one names no operator either. -/
example : ((run true []).resolve "not:no:such").1 =
    .error (.unknownDecorator "no" "not:no:such") := rfl

end Registry
end Verdict
