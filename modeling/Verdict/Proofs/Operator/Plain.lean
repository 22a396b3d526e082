import Verdict.Proofs.Operator.Parts

/-!
# Resolution without memory

`plain` finds the operator of a name in a table of registered operators that nothing is added
to. A registry is coherent with such a table if its own table extends it by operators that
`plain` gives for their names. Resolving in a coherent registry gives what `plain` gives, and
keeps the registry coherent.
-/
namespace Verdict.Registry

/-- The operator whose name has the given parts: a registered one, or else the decorator that
the first part names on the operator of the others. A fault reports the whole name. -/
def plainOf (operators : Table Operator) (decorators : Table Decorator) (name : String) :
    List String → Except Fault Operator
  | [] => .error (.unknownOperator name)
  | part :: rest =>
    match operators.get? (":".intercalate (part :: rest)) with
    | some o => .ok o
    | none =>
      if rest = [] then .error (.unknownOperator name)
      else
        match decorators.get? part with
        | none => .error (.unknownDecorator part name)
        | some d => (plainOf operators decorators name rest).map d.decorate

def plain (operators : Table Operator) (decorators : Table Decorator) (name : String) :
    Except Fault Operator :=
  plainOf operators decorators name (segments name)

variable {registered registered' : Table Operator} {decorators decorators' : Table Decorator}
variable {name : String} {parts : List String}

theorem plainOf_of_get? {o : Operator} (hne : parts ≠ [])
    (h : registered.get? (":".intercalate parts) = some o) :
    plainOf registered decorators name parts = .ok o := by
  cases parts with
  | nil => exact absurd rfl hne
  | cons part rest => simp only [plainOf, h]

theorem plainOf_cons {part : String} {rest : List String} {d : Decorator}
    (h : registered.get? (":".intercalate (part :: rest)) = none) (hne : rest ≠ [])
    (hd : decorators.get? part = some d) :
    plainOf registered decorators name (part :: rest) =
      (plainOf registered decorators name rest).map d.decorate := by
  simp only [plainOf, h, if_neg hne, hd]

theorem plainOf_singleton {part : String} (h : registered.get? part = none) :
    plainOf registered decorators name [part] = .error (.unknownOperator name) := by
  simp [plainOf, h]

theorem plainOf_cons_of_none {part : String} {rest : List String}
    (h : registered.get? (":".intercalate (part :: rest)) = none) (hne : rest ≠ [])
    (hd : decorators.get? part = none) :
    plainOf registered decorators name (part :: rest) = .error (.unknownDecorator part name) := by
  simp only [plainOf, h, if_neg hne, hd]

/-- Only a fault depends on the whole name. -/
theorem plainOf_eq_ok_of_eq_ok {name' : String} {o : Operator}
    (h : plainOf registered decorators name parts = .ok o) :
    plainOf registered decorators name' parts = .ok o := by
  induction parts generalizing o with
  | nil => cases h
  | cons part rest ih =>
    cases hget : registered.get? (":".intercalate (part :: rest)) with
    | some o' => simpa only [plainOf, hget] using h
    | none =>
      by_cases hne : rest = []
      · simp only [plainOf, hget, if_pos hne] at h
        cases h
      · cases hd : decorators.get? part with
        | none =>
          simp only [plainOf, hget, if_neg hne, hd] at h
          cases h
        | some d =>
          rw [plainOf_cons hget hne hd] at h ⊢
          cases hrest : plainOf registered decorators name rest with
          | error e => rw [hrest] at h; cases h
          | ok inner => rw [ih hrest, ← h, hrest]

/-- Only the registered operators at the end of the name and the decorators in front of it
matter. -/
theorem plainOf_congr
    (hoperators : ∀ rest, rest <:+ parts → rest ≠ [] →
      registered.get? (":".intercalate rest) = registered'.get? (":".intercalate rest))
    (hdecorators : ∀ part ∈ parts.dropLast, decorators.get? part = decorators'.get? part) :
    plainOf registered decorators name parts = plainOf registered' decorators' name parts := by
  induction parts with
  | nil => rfl
  | cons part rest ih =>
    have hget := hoperators _ List.suffix_rfl (List.cons_ne_nil part rest)
    by_cases hne : rest = []
    · simp only [plainOf, hget, if_pos hne]
    · have hd : decorators.get? part = decorators'.get? part :=
        hdecorators part (by simp [List.dropLast_cons_of_ne_nil hne])
      have hrest := ih
        (fun rest' hs => hoperators rest' (hs.trans (List.suffix_cons part rest)))
        (fun part' h => hdecorators part' (by simp [List.dropLast_cons_of_ne_nil hne, h]))
      simp only [plainOf, hget, hd, hrest]

/-- The table of a registry extends `registered` by operators that are what their names say, and
every operator and decorator stands under its name. -/
structure Coherent (registered : Table Operator) (r : Registry) : Prop where
  operator_name : ∀ {key o}, r.operators.get? key = some o → o.name = key
  decorator_name : ∀ {key d}, r.decorators.get? key = some d → d.name = key
  registered_le : ∀ {key o}, registered.get? key = some o → r.operators.get? key = some o
  plain_eq : ∀ {key o}, r.operators.get? key = some o → plain registered r.decorators key = .ok o

/-- Every operator and decorator stands under its name. -/
structure WellNamed (r : Registry) : Prop where
  operator_name : ∀ {key o}, r.operators.get? key = some o → o.name = key
  decorator_name : ∀ {key d}, r.decorators.get? key = some d → d.name = key

variable {r : Registry}

theorem Coherent.wellNamed (h : Coherent registered r) : WellNamed r :=
  ⟨h.operator_name, h.decorator_name⟩

theorem plain_of_get? {key : String} {o : Operator} (h : registered.get? key = some o) :
    plain registered decorators key = .ok o :=
  plainOf_of_get? (segments_ne_nil key) (by rwa [intercalate_segments])

theorem WellNamed.coherent (h : WellNamed r) : Coherent r.operators r :=
  ⟨h.operator_name, h.decorator_name, id, plain_of_get?⟩

theorem Coherent.get?_eq_none {key : String} (h : Coherent registered r)
    (hnone : r.operators.get? key = none) : registered.get? key = none := by
  cases hreg : registered.get? key with
  | none => rfl
  | some o => simp [h.registered_le hreg] at hnone

theorem Coherent.congr (h : Coherent registered r)
    (he : ∀ key, registered.get? key = registered'.get? key) : Coherent registered' r where
  operator_name := h.operator_name
  decorator_name := h.decorator_name
  registered_le hget := h.registered_le (he _ ▸ hget)
  plain_eq hget := by
    rw [plain, ← plainOf_congr (fun rest _ _ => he _) fun _ _ => rfl]
    exact h.plain_eq hget

/-- What `peel` finds: the decorators that the first parts name, and the operator of the parts
after them, when no longer end of the name has an operator. -/
inductive Peeled (r : Registry) : List String → List Decorator → Operator → Prop where
  | operator {parts : List String} {o : Operator} (hne : parts ≠ [])
      (hget : r.operators.get? (":".intercalate parts) = some o) : Peeled r parts [] o
  | decorated {part : String} {rest : List String} {d : Decorator} {ds : List Decorator}
      {o : Operator} (hnone : r.operators.get? (":".intercalate (part :: rest)) = none)
      (hd : r.decorators.get? part = some d) (h : Peeled r rest ds o) :
      Peeled r (part :: rest) (d :: ds) o

theorem Peeled.ne_nil {ds : List Decorator} {o : Operator} (h : Peeled r parts ds o) :
    parts ≠ [] := by
  cases h with
  | operator hne => exact hne
  | decorated => exact List.cons_ne_nil _ _

theorem peeled_of_peel_eq_ok {ds : List Decorator} {o : Operator}
    (hnone : r.operators.get? (":".intercalate parts) = none)
    (h : r.peel name parts = .ok (ds, o)) : Peeled r parts ds o := by
  induction parts generalizing ds o with
  | nil => cases h
  | cons part rest ih =>
    cases rest with
    | nil => cases h
    | cons part' rest =>
      cases hd : r.decorators.get? part with
      | none => simp [peel, hd] at h
      | some d =>
        cases hget : r.operators.get? (":".intercalate (part' :: rest)) with
        | some o' =>
          simp only [peel, hd, hget, Except.ok.injEq, Prod.mk.injEq] at h
          obtain ⟨rfl, rfl⟩ := h
          exact .decorated hnone hd (.operator (List.cons_ne_nil _ _) hget)
        | none =>
          simp only [peel, hd, hget] at h
          cases hrest : r.peel name (part' :: rest) with
          | error e => rw [hrest] at h; cases h
          | ok found =>
            rw [hrest] at h
            cases h
            exact .decorated hnone hd (ih hget hrest)

/-- If `peel` fails, so does `plain`, and for the same cause. -/
theorem Coherent.plainOf_eq_error {e : Fault} (hc : Coherent registered r)
    (hnone : r.operators.get? (":".intercalate parts) = none)
    (h : r.peel name parts = .error e) :
    plainOf registered r.decorators name parts = .error e := by
  induction parts with
  | nil =>
    cases h
    rfl
  | cons part rest ih =>
    have habsent := hc.get?_eq_none hnone
    cases rest with
    | nil =>
      rw [String.intercalate_singleton] at habsent
      cases h
      exact plainOf_singleton habsent
    | cons part' rest =>
      cases hd : r.decorators.get? part with
      | none =>
        simp only [peel, hd] at h
        cases h
        exact plainOf_cons_of_none habsent (List.cons_ne_nil _ _) hd
      | some d =>
        rw [plainOf_cons habsent (List.cons_ne_nil _ _) hd]
        cases hget : r.operators.get? (":".intercalate (part' :: rest)) with
        | some o' => simp [peel, hd, hget] at h
        | none =>
          simp only [peel, hd, hget] at h
          cases hrest : r.peel name (part' :: rest) with
          | ok found => rw [hrest] at h; cases h
          | error e' =>
            rw [hrest] at h
            cases h
            rw [ih hget hrest]
            rfl

theorem decorators_compose (o : Operator) (ds : List Decorator) :
    (r.compose o ds).2.decorators = r.decorators := by
  induction ds with
  | nil => rfl
  | cons d ds ih => exact ih

/-- An operator that a free name resolves to may be remembered. -/
theorem Coherent.remember {o : Operator} (hc : Coherent registered r)
    (hnone : registered.get? o.name = none)
    (hplain : plain registered r.decorators o.name = .ok o) :
    Coherent registered { r with operators := r.operators.insert o.name o } where
  operator_name h := by
    rcases Table.get?_insert_eq_some_iff.1 h with ⟨rfl, rfl⟩ | ⟨-, h⟩
    · rfl
    · exact hc.operator_name h
  decorator_name := hc.decorator_name
  registered_le {key o'} h := by
    have hkey : key ≠ o.name := by
      rintro rfl
      cases h.symm.trans hnone
    exact Table.get?_insert_eq_some_iff.2 (.inr ⟨hkey, hc.registered_le h⟩)
  plain_eq h := by
    rcases Table.get?_insert_eq_some_iff.1 h with ⟨rfl, rfl⟩ | ⟨-, h⟩
    · exact hplain
    · exact hc.plain_eq h

/-- Composing gives the operator that `plain` gives. The table afterwards has it under its name,
keeps what it had, and has other new entries only for ends of the name. -/
theorem Coherent.compose {ds : List Decorator} {o : Operator} (hc : Coherent registered r)
    (name : String)
    (hfree : ∀ part ∈ parts, ':' ∉ part.toList) (h : Peeled r parts ds o) :
    Coherent registered (r.compose o ds).2 ∧
      plainOf registered r.decorators name parts = .ok (r.compose o ds).1 ∧
      (r.compose o ds).1.name = ":".intercalate parts ∧
      ∀ key, (∀ rest, rest <:+ parts → key ≠ ":".intercalate rest) ∨
          r.operators.get? key ≠ none →
        (r.compose o ds).2.operators.get? key = r.operators.get? key := by
  induction h with
  | @operator parts o hne hget =>
    have hplain := hc.plain_eq hget
    rw [plain, segments_intercalate hne hfree] at hplain
    exact ⟨hc, plainOf_eq_ok_of_eq_ok hplain, hc.operator_name hget, fun _ _ => rfl⟩
  | @decorated part rest d ds o hnone hd hrest ih =>
    have hne := hrest.ne_nil
    obtain ⟨hcoherent, hplain, hname, hframe⟩ := ih fun part' h => hfree part' (by simp [h])
    have habsent := hc.get?_eq_none hnone
    have hlayer : (d.decorate (r.compose o ds).1).name = ":".intercalate (part :: rest) := by
      rw [String.intercalate_cons_of_ne_nil hne, ← hname, ← hc.decorator_name hd]
      rfl
    have hplain' : plainOf registered r.decorators name (part :: rest) =
        .ok (d.decorate (r.compose o ds).1) := by
      rw [plainOf_cons habsent hne hd, hplain]
      rfl
    refine ⟨hcoherent.remember (hlayer ▸ habsent) ?_, hplain', hlayer, fun key hkey => ?_⟩
    · rw [hlayer, decorators_compose, plain, segments_intercalate (List.cons_ne_nil _ _) hfree]
      exact plainOf_eq_ok_of_eq_ok hplain'
    · have hne' : key ≠ (d.decorate (r.compose o ds).1).name := by
        rw [hlayer]
        rcases hkey with hkey | hkey
        · exact hkey _ List.suffix_rfl
        · rintro rfl
          exact hkey hnone
      have hinner := hframe key (hkey.imp_left fun h rest' hs =>
        h rest' (hs.trans (List.suffix_cons part rest)))
      exact (Table.get?_insert_of_ne _ hne' _).trans hinner

theorem resolve_of_get? {o : Operator} (h : r.operators.get? name = some o) :
    r.resolve name = (.ok o, r) := by
  simp only [resolve, h]

/-- Resolving gives what the registered operators and the decorators give by themselves. -/
theorem Coherent.resolve_fst (hc : Coherent registered r) (name : String) :
    (r.resolve name).1 = plain registered r.decorators name := by
  cases hget : r.operators.get? name with
  | some o => rw [resolve_of_get? hget, hc.plain_eq hget]
  | none =>
    have hnone : r.operators.get? (":".intercalate (segments name)) = none := by
      rwa [intercalate_segments]
    cases hpeel : r.peel name (segments name) with
    | error e =>
      simp only [resolve, hget, hpeel]
      exact (hc.plainOf_eq_error hnone hpeel).symm
    | ok found =>
      have hpeeled := peeled_of_peel_eq_ok hnone hpeel
      simp only [resolve, hget, hpeel]
      exact (hc.compose name (fun _ => colon_not_mem_of_mem_segments) hpeeled).2.1.symm

theorem Coherent.resolve_snd (hc : Coherent registered r) (name : String) :
    Coherent registered (r.resolve name).2 := by
  cases hget : r.operators.get? name with
  | some o => rwa [resolve_of_get? hget]
  | none =>
    have hnone : r.operators.get? (":".intercalate (segments name)) = none := by
      rwa [intercalate_segments]
    cases hpeel : r.peel name (segments name) with
    | error e => simpa only [resolve, hget, hpeel] using hc
    | ok found =>
      have hpeeled := peeled_of_peel_eq_ok hnone hpeel
      simp only [resolve, hget, hpeel]
      exact (hc.compose name (fun _ => colon_not_mem_of_mem_segments) hpeeled).1

theorem decorators_resolve (r : Registry) (name : String) :
    (r.resolve name).2.decorators = r.decorators := by
  unfold resolve
  split
  · rfl
  · split
    · rfl
    · exact decorators_compose _ _

/-- Forgetting keys keeps coherence, if it forgets every key that shows a forgotten one. -/
theorem Coherent.retain {p : String → Bool} (hc : Coherent registered r) (hp : Hereditary p) :
    Coherent (registered.retain fun key => !p key)
      { r with operators := r.operators.retain fun key => !p key } where
  operator_name h := hc.operator_name (Table.get?_retain_eq_some_iff.1 h).2
  decorator_name := hc.decorator_name
  registered_le h :=
    Table.get?_retain_eq_some_iff.2 ((Table.get?_retain_eq_some_iff.1 h).imp_right hc.registered_le)
  plain_eq {key o} h := by
    obtain ⟨hkey, h⟩ := Table.get?_retain_eq_some_iff.1 h
    rw [← hc.plain_eq h]
    refine plainOf_congr (fun rest hs hne => ?_) fun _ _ => rfl
    have hrest : p (":".intercalate rest) = false := by
      cases hrest : p (":".intercalate rest) with
      | false => rfl
      | true =>
        have hwhole := hp.of_suffix hs hne hrest
        rw [intercalate_segments] at hwhole
        simp [hwhole] at hkey
    simp [Table.get?_retain, hrest]

/-- A change of one decorator keeps coherence, if no key shows it. -/
theorem Coherent.setDecorators (hc : Coherent registered r) (decorator : String)
    (decorators' : Table Decorator)
    (hname : ∀ {key d}, decorators'.get? key = some d → d.name = key)
    (hsame : ∀ key, key ≠ decorator → decorators'.get? key = r.decorators.get? key)
    (hfree : ∀ {key o}, r.operators.get? key = some o → isDecoratedBy decorator key = false) :
    Coherent registered { r with decorators := decorators' } where
  operator_name := hc.operator_name
  decorator_name := hname
  registered_le := hc.registered_le
  plain_eq {key o} h := by
    rw [← hc.plain_eq h]
    refine plainOf_congr (fun _ _ _ => rfl) fun part hpart => hsame part ?_
    rintro rfl
    have hshown := isDecoratedBy_iff.2 hpart
    rw [hfree h] at hshown
    cases hshown

/-- A new operator keeps coherence, if no key ends with its name. -/
theorem Coherent.insert {o : Operator} (hc : Coherent registered r)
    (hfree : ∀ {key o'}, r.operators.get? key = some o' → endsWith o.name key = false) :
    Coherent (registered.insert o.name o)
      { r with operators := r.operators.insert o.name o } where
  operator_name h := by
    rcases Table.get?_insert_eq_some_iff.1 h with ⟨rfl, rfl⟩ | ⟨-, h⟩
    · rfl
    · exact hc.operator_name h
  decorator_name := hc.decorator_name
  registered_le h :=
    Table.get?_insert_eq_some_iff.2
      ((Table.get?_insert_eq_some_iff.1 h).imp_right (And.imp_right hc.registered_le))
  plain_eq {key o'} h := by
    rcases Table.get?_insert_eq_some_iff.1 h with ⟨rfl, rfl⟩ | ⟨hkey, h⟩
    · exact plain_of_get? (Table.get?_insert_self _ _ _)
    · rw [← hc.plain_eq h]
      refine plainOf_congr (fun rest hs hne => ?_) fun _ _ => rfl
      refine Table.get?_insert_of_ne _ ?_ _
      intro he
      have hself : isOrEndsWith o.name (":".intercalate rest) := by simp [isOrEndsWith, he]
      have hkey' := (hereditary_isOrEndsWith o.name).of_suffix hs hne hself
      simp [intercalate_segments, isOrEndsWith, hkey, hfree h] at hkey'

end Verdict.Registry
