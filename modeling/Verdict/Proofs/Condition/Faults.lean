import Verdict.Proofs.Condition.Reading
import Verdict.Proofs.Number.Rounding

/-!
# The faults of a definition

A definition is well formed if it has no faults. Those it has are in order: what is wrong with an
object itself comes before what is wrong with the conditions inside it, and these come from left to
right. The reader reports the first of them.
-/
namespace Verdict

namespace Condition

/-- Do 64 bits hold the integer? -/
def inRange (n : Int) : Bool := decide (-0x8000000000000000 ≤ n ∧ n < 0x8000000000000000)

/-- A priority is null, a number, or text that names a number, and its integer part is in range. -/
def isPriority : Json → Bool
  | .null => true
  | .number (.integer n _) => inRange n
  | .number (.double x) => inRange x.trunc
  | .string s =>
    (integer? (Text.trim s.toList)).any inRange || (Double.read? s).any (inRange ·.trunc)
  | _ => false

/-- What an object defines. -/
inductive Variant where
  | group (q : Quantifier)
  | not
  | reference
  | leaf
deriving DecidableEq

/-- The first of the four keys decides. -/
def variantOf (t : Table Json) : Variant :=
  if t.contains "any" then .group .any
  else if t.contains "all" then .group .all
  else if t.contains "not" then .not
  else if t.contains "condition" then .reference
  else .leaf

/-! What definitions are made of. -/

def ValidPriority (t : Table Json) : Prop := ∀ v, t.get? "priority" = some v → isPriority v

/-- The member is missing, null, or text. -/
def OptionalText (t : Table Json) (field : String) : Prop :=
  ∀ v, t.get? field = some v → v = .null ∨ ∃ s, v = .string s

def RequiredText (t : Table Json) (field : String) : Prop := ∃ s, t.get? field = some (.string s)

inductive WellFormed : Json → Prop
  | group {t : Table Json} {q : Quantifier} {items : List Json}
      (hvariant : variantOf t = .group q) (hpriority : ValidPriority t)
      (hname : OptionalText t "name") (hpayload : t.get? q.connective.key = some (.array items))
      (hitems : ∀ v ∈ items, WellFormed v) : WellFormed (.object t)
  | not {t : Table Json} {v : Json} (hvariant : variantOf t = .not) (hpriority : ValidPriority t)
      (hname : OptionalText t "name") (hpayload : t.get? "not" = some v)
      (harray : v.isArray = false) (hv : WellFormed v) : WellFormed (.object t)
  | reference {t : Table Json} (hvariant : variantOf t = .reference)
      (hcondition : RequiredText t "condition") (hname : OptionalText t "name")
      (hpriority : ValidPriority t) : WellFormed (.object t)
  | leaf {t : Table Json} (hvariant : variantOf t = .leaf) (hfact : RequiredText t "fact")
      (hoperator : RequiredText t "operator") (hvalue : t.contains "value")
      (hpath : OptionalText t "path") (hpriority : ValidPriority t)
      (hname : OptionalText t "name") : WellFormed (.object t)

/-! What is wrong with definitions. -/

def priorityFaults (t : Table Json) : List DefinitionFault :=
  match t.get? "priority" with
  | some v => if isPriority v then [] else [.invalidField "priority" (.notInteger v.text)]
  | none => []

def optionalTextFaults (t : Table Json) (field : String) : List DefinitionFault :=
  match t.get? field with
  | none | some .null | some (.string _) => []
  | some v => [.invalidField field (.otherThanString v.kind)]

def requiredTextFaults (t : Table Json) (field : String) : List DefinitionFault :=
  match t.get? field with
  | none => [.missingField field]
  | some (.string _) => []
  | some v => [.invalidField field (.otherThanString v.kind)]

def headingFaults (t : Table Json) : List DefinitionFault :=
  priorityFaults t ++ optionalTextFaults t "name"

def nameFaults (t : Table Json) : List DefinitionFault :=
  match t.get? "condition" with
  | some (.string _) => []
  | _ => [.invalidField "condition" .notString]

def referenceFaults (t : Table Json) : List DefinitionFault :=
  nameFaults t ++ optionalTextFaults t "name" ++ priorityFaults t

def leafFaults (t : Table Json) : List DefinitionFault :=
  requiredTextFaults t "fact" ++ requiredTextFaults t "operator" ++
    (if t.contains "value" then [] else [.missingField "value"]) ++
    optionalTextFaults t "path" ++ priorityFaults t ++ optionalTextFaults t "name"

theorem sizeOf_lt_of_get? {t : Table Json} {key : String} {v : Json} (h : t.get? key = some v) :
    sizeOf v < sizeOf (Json.object t) := by
  obtain ⟨l⟩ := t
  have hlookup (l : List (String × Json)) (h : Table.lookup key l = some v) :
      sizeOf v < sizeOf l := by
    induction l with
    | nil => cases h
    | cons e rest ih =>
      obtain ⟨k, w⟩ := e
      rw [Table.lookup] at h
      simp only [List.cons.sizeOf_spec, Prod.mk.sizeOf_spec]
      split at h
      · cases h
        omega
      · have := ih h
        omega
  have := hlookup l h
  simp only [Json.object.sizeOf_spec, Table.mk.sizeOf_spec]
  omega

/-- All faults of a definition, in the order in which they count. -/
def faults : Json → List DefinitionFault
  | .object t =>
    match variantOf t with
    | .group q => headingFaults t ++
      match _hpayload : t.get? q.connective.key with
      | some (.array items) => items.attach.flatMap fun v => faults v.1
      | _ => [.notAnArray q.connective.key]
    | .not => headingFaults t ++
      match _hpayload : t.get? "not" with
      | some (.array _) => [.unexpectedArray "not"]
      | some v => faults v
      | none => []
    | .reference => referenceFaults t
    | .leaf => leafFaults t
  | v => [.notAnObject v.kind]
termination_by v => sizeOf v
decreasing_by
  · have hitems := sizeOf_lt_of_get? _hpayload
    have hitem := List.sizeOf_lt_of_mem v.2
    rw [Json.array.sizeOf_spec] at hitems
    omega
  · exact sizeOf_lt_of_get? _hpayload

variable {t : Table Json} {field key : String} {q : Quantifier} {v : Json}

/-! The variant decides what is read, and the payload what is wrong inside. -/

theorem contains_of_variantOf_group (h : variantOf t = .group q) :
    t.contains q.connective.key = true := by
  unfold variantOf at h
  grind [Quantifier.connective, Connective.key]

theorem contains_of_variantOf_not (h : variantOf t = .not) : t.contains "not" = true := by
  unfold variantOf at h
  grind

theorem ofJson_object (t : Table Json) : ofJson (.object t) =
    match variantOf t with
    | .group q => do
      let heading ← headingOf t q.connective.key
      return group q heading (← groupAt q.connective.key t.entries)
    | .not => do
      let heading ← headingOf t "not"
      return not heading (← negatedAt "not" t.entries)
    | .reference => (referenceOf t).map reference
    | .leaf => (leafOf t).map leaf := by
  rw [ofJson, variantOf, connectiveOf?]
  cases t.contains "any" <;> cases t.contains "all" <;> cases t.contains "not" <;>
    cases t.contains "condition" <;> rfl

theorem faults_group (hvariant : variantOf t = .group q)
    (hget : t.get? q.connective.key = some v) : faults (.object t) = headingFaults t ++
      match v.toArray? with
      | some items => items.flatMap faults
      | none => [.notAnArray q.connective.key] := by
  rw [faults, hvariant]
  simp only
  split
  · rename_i items hitems
    obtain rfl : v = .array items := Option.some.inj (hget.symm.trans hitems)
    simp only [List.flatMap_subtype, List.unattach_attach, Json.toArray?]
  · rename_i hother
    cases v with
    | array items => exact absurd hget (hother items)
    | _ => rfl

theorem faults_not (hvariant : variantOf t = .not) (hget : t.get? "not" = some v) :
    faults (.object t) = headingFaults t ++
      if v.isArray then [.unexpectedArray "not"] else faults v := by
  rw [faults, hvariant]
  simp only
  split
  · rename_i items hitems
    obtain rfl : v = .array items := Option.some.inj (hget.symm.trans hitems)
    rfl
  · rename_i w hother hw
    obtain rfl : v = w := Option.some.inj (hget.symm.trans hw)
    cases v with
    | array items => exact absurd rfl (hother items)
    | _ => rfl
  · rename_i hnone
    cases hget.symm.trans hnone

theorem faults_of_toObject? (h : v.toObject? = none) : faults v = [.notAnObject v.kind] := by
  cases v with
  | object t => cases h
  | _ => rw [faults]; nofun

theorem ofJson_of_toObject? (h : v.toObject? = none) : ofJson v = .error (.notAnObject v.kind) := by
  cases v with
  | object t => cases h
  | _ => rfl

/-! Each reader reports its faults. -/

/-- Reading succeeds if there are no faults, and fails with the first of them otherwise. -/
def Reports {α : Type} (found : List DefinitionFault) : Except DefinitionFault α → Prop
  | .ok _ => found = []
  | .error fault => found.head? = some fault

variable {α β : Type} {found found' : List DefinitionFault} {x : Except DefinitionFault α}

theorem Reports.bind {f : α → Except DefinitionFault β} (hx : Reports found x)
    (hf : ∀ a, Reports found' (f a)) : Reports (found ++ found') (x >>= f) := by
  cases x with
  | ok a =>
    obtain rfl : found = [] := hx
    exact hf a
  | error fault =>
    have hhead : found.head? = some fault := hx
    change (found ++ found').head? = some fault
    rw [List.head?_append, hhead, Option.some_or]

theorem Reports.last {f : α → β} (hx : Reports found x) :
    Reports found (x >>= fun a => pure (f a)) := by
  cases x <;> exact hx

theorem Reports.exists_ok_iff (h : Reports found x) : (∃ a, x = .ok a) ↔ found = [] := by
  cases x with
  | ok a => exact ⟨fun _ => h, fun _ => ⟨a, rfl⟩⟩
  | error fault =>
    have hhead : found.head? = some fault := h
    refine ⟨fun ⟨a, ha⟩ => (nomatch ha), fun hnil => ?_⟩
    rw [hnil] at hhead
    cases hhead

theorem Reports.error_iff (h : Reports found x) {fault : DefinitionFault} :
    x = .error fault ↔ found.head? = some fault := by
  cases x with
  | ok a =>
    obtain rfl : found = [] := h
    exact ⟨nofun, nofun⟩
  | error fault' =>
    have hhead : found.head? = some fault' := h
    rw [hhead, Option.some_inj]
    exact ⟨Except.error.inj, congrArg Except.error⟩

theorem reports_optionalString (t : Table Json) (field : String) :
    Reports (optionalTextFaults t field) (optionalString t field) := by
  unfold optionalTextFaults optionalString
  cases t.get? field with
  | none => rfl
  | some v => cases v <;> rfl

theorem reports_requiredString (t : Table Json) (field : String) :
    Reports (requiredTextFaults t field) (requiredString t field) := by
  unfold requiredTextFaults requiredString
  cases t.get? field with
  | none => rfl
  | some v => cases v <;> rfl

theorem isSome_int64? (n : Int) : (int64? n).isSome = inRange n := by
  unfold int64? inRange
  split <;> simp [*]

theorem isSome_numberPriority? (n : Number) :
    (numberPriority? n).isSome = isPriority (.number n) := by
  cases n with
  | double x => exact isSome_int64? x.trunc
  | integer n h =>
    have hn : n.natAbs ≤ 0x10000000000000000 := by omega
    have heither : (numberPriority? (.integer n h)).isSome =
        (inRange n || inRange (Double.ofInt n hn).trunc) := by
      rw [numberPriority?, Option.orElse_eq_or, Option.isSome_or, Number.toInt64?, truncated?,
        Number.toDouble, isSome_int64?, isSome_int64?]
    rw [heither, isPriority]
    -- an integer that is too large is too large as a double as well
    by_cases hlarge : 0x8000000000000000 ≤ n
    · have htrunc := Double.le_trunc_ofInt hn hlarge
      have hout : inRange (Double.ofInt n hn).trunc = false := by
        rw [inRange, decide_eq_false_iff_not]
        omega
      rw [hout, Bool.or_false]
    · have hin : inRange n = true := by
        rw [inRange, decide_eq_true_iff]
        omega
      rw [hin, Bool.true_or]

theorem isSome_textPriority? (s : String) :
    (textPriority? s).isSome = isPriority (.string s) := by
  rw [textPriority?, isPriority, Option.orElse_eq_or, Option.isSome_or, Option.isSome_bind,
    Option.isSome_bind]
  simp only [isSome_int64?, truncated?]

theorem reports_priorityOf (t : Table Json) :
    Reports (priorityFaults t) (priorityOf (t.get? "priority")) := by
  unfold priorityFaults priorityOf
  cases t.get? "priority" with
  | none => rfl
  | some v =>
    cases v with
    | number n =>
      simp only [← isSome_numberPriority?]
      cases numberPriority? n <;> rfl
    | string s =>
      simp only [← isSome_textPriority?]
      cases textPriority? s <;> rfl
    | _ => rfl

theorem reports_headingOf (t : Table Json) (key : String) :
    Reports (headingFaults t) (headingOf t key) :=
  (reports_priorityOf t).bind fun _ => (reports_optionalString t "name").last

theorem reports_referenceOf (t : Table Json) : Reports (referenceFaults t) (referenceOf t) := by
  rw [referenceFaults, List.append_assoc]
  unfold referenceOf nameFaults
  have hrest (condition : String) : Reports (optionalTextFaults t "name" ++ priorityFaults t) (do
      let name ← optionalString t "name"
      let priority ← priorityOf (t.get? "priority")
      return ({ condition, name, priority,
                extra := without t ["condition", "name", "priority"] } : Reference)) :=
    (reports_optionalString t "name").bind fun _ => (reports_priorityOf t).last
  cases t.get? "condition" with
  | none => rfl
  | some v =>
    cases v with
    | string s => exact hrest s
    | _ => rfl

theorem reports_leafOf (t : Table Json) : Reports (leafFaults t) (leafOf t) := by
  simp only [leafFaults, List.append_assoc]
  refine (reports_requiredString t "fact").bind fun _ =>
    (reports_requiredString t "operator").bind fun _ => ?_
  unfold Table.contains
  cases t.get? "value" with
  | none => rfl
  | some v =>
    exact (reports_optionalString t "path").bind fun _ =>
      (reports_priorityOf t).bind fun _ => (reports_optionalString t "name").last

theorem reports_ofItems {items : List Json} (h : ∀ v ∈ items, Reports (faults v) (ofJson v)) :
    Reports (items.flatMap faults) (ofItems items) := by
  induction items with
  | nil => rfl
  | cons v rest ih =>
    rw [List.flatMap_cons, ofItems]
    exact (h v (by simp)).bind fun c => (ih fun v hv => h v (by simp [hv])).last

theorem reports_ofJson (v : Json) : Reports (faults v) (ofJson v) := by
  induction v using faults.induct with
  | case1 t q hvariant ih =>
    obtain ⟨payload, hget⟩ :=
      Option.isSome_iff_exists.1 (contains_of_variantOf_group hvariant)
    rw [faults_group hvariant hget, ofJson_object, hvariant]
    refine (reports_headingOf t q.connective.key).bind fun heading => Reports.last ?_
    rw [groupAt_eq, hget]
    cases payload with
    | array items => exact reports_ofItems fun v hv => ih items hget ⟨v, hv⟩
    | _ => rfl
  | case2 t hvariant ih =>
    obtain ⟨payload, hget⟩ := Option.isSome_iff_exists.1 (contains_of_variantOf_not hvariant)
    rw [faults_not hvariant hget, ofJson_object, hvariant]
    refine (reports_headingOf t "not").bind fun heading => Reports.last ?_
    simp only [negatedAt_eq, hget]
    split
    · rfl
    · exact ih payload hget
  | case3 t hvariant =>
    rw [faults, ofJson_object, hvariant]
    exact (reports_referenceOf t).last
  | case4 t hvariant =>
    rw [faults, ofJson_object, hvariant]
    exact (reports_leafOf t).last
  | case5 v hother =>
    have hnone : v.toObject? = none := by
      cases v with
      | object t => exact absurd rfl (hother t)
      | _ => rfl
    rw [faults_of_toObject? hnone, ofJson_of_toObject? hnone]
    rfl

/-! A well-formed definition has no faults, and only that has none. -/

theorem priorityFaults_eq_nil_iff : priorityFaults t = [] ↔ ValidPriority t := by
  unfold priorityFaults ValidPriority
  cases t.get? "priority" with
  | none => simp
  | some v => cases isPriority v <;> simp

theorem optionalTextFaults_eq_nil_iff : optionalTextFaults t field = [] ↔ OptionalText t field := by
  unfold optionalTextFaults OptionalText
  cases t.get? field with
  | none => simp
  | some v => cases v <;> simp

theorem requiredTextFaults_eq_nil_iff : requiredTextFaults t field = [] ↔ RequiredText t field := by
  unfold requiredTextFaults RequiredText
  cases t.get? field with
  | none => simp
  | some v => cases v <;> simp

theorem nameFaults_eq_nil_iff : nameFaults t = [] ↔ RequiredText t "condition" := by
  unfold nameFaults RequiredText
  cases t.get? "condition" with
  | none => simp
  | some v => cases v <;> simp

theorem headingFaults_eq_nil_iff :
    headingFaults t = [] ↔ ValidPriority t ∧ OptionalText t "name" := by
  rw [headingFaults, List.append_eq_nil_iff, priorityFaults_eq_nil_iff,
    optionalTextFaults_eq_nil_iff]

theorem WellFormed.faults_eq_nil (h : WellFormed v) : faults v = [] := by
  induction h with
  | @group t q items hvariant hpriority hname hpayload hitems ih =>
    rw [faults_group hvariant hpayload, headingFaults_eq_nil_iff.2 ⟨hpriority, hname⟩]
    exact List.flatMap_eq_nil_iff.2 ih
  | @not t v hvariant hpriority hname hpayload harray hv ih =>
    rw [faults_not hvariant hpayload, headingFaults_eq_nil_iff.2 ⟨hpriority, hname⟩, harray]
    exact ih
  | @reference t hvariant hcondition hname hpriority =>
    rw [faults, hvariant]
    simp only [referenceFaults, nameFaults_eq_nil_iff.2 hcondition,
      optionalTextFaults_eq_nil_iff.2 hname, priorityFaults_eq_nil_iff.2 hpriority,
      List.append_nil]
  | @leaf t hvariant hfact hoperator hvalue hpath hpriority hname =>
    rw [faults, hvariant]
    simp only [leafFaults, requiredTextFaults_eq_nil_iff.2 hfact,
      requiredTextFaults_eq_nil_iff.2 hoperator, if_pos hvalue,
      optionalTextFaults_eq_nil_iff.2 hpath, priorityFaults_eq_nil_iff.2 hpriority,
      optionalTextFaults_eq_nil_iff.2 hname, List.append_nil]

theorem wellFormed_of_faults_eq_nil (h : faults v = []) : WellFormed v := by
  induction v using faults.induct with
  | case1 t q hvariant ih =>
    obtain ⟨payload, hget⟩ :=
      Option.isSome_iff_exists.1 (contains_of_variantOf_group hvariant)
    rw [faults_group hvariant hget] at h
    obtain ⟨hheading, hinside⟩ := List.append_eq_nil_iff.1 h
    obtain ⟨hpriority, hname⟩ := headingFaults_eq_nil_iff.1 hheading
    cases payload with
    | array items =>
      have hnone := List.flatMap_eq_nil_iff.1 hinside
      exact .group hvariant hpriority hname hget fun v hv => ih items hget ⟨v, hv⟩ (hnone v hv)
    | _ => cases hinside
  | case2 t hvariant ih =>
    obtain ⟨payload, hget⟩ := Option.isSome_iff_exists.1 (contains_of_variantOf_not hvariant)
    rw [faults_not hvariant hget] at h
    obtain ⟨hheading, hinside⟩ := List.append_eq_nil_iff.1 h
    obtain ⟨hpriority, hname⟩ := headingFaults_eq_nil_iff.1 hheading
    cases harray : payload.isArray with
    | true =>
      rw [harray] at hinside
      cases hinside
    | false =>
      rw [harray] at hinside
      exact .not hvariant hpriority hname hget harray (ih payload hget hinside)
  | case3 t hvariant =>
    rw [faults, hvariant] at h
    simp only [referenceFaults, List.append_eq_nil_iff, nameFaults_eq_nil_iff,
      optionalTextFaults_eq_nil_iff, priorityFaults_eq_nil_iff] at h
    obtain ⟨⟨hcondition, hname⟩, hpriority⟩ := h
    exact .reference hvariant hcondition hname hpriority
  | case4 t hvariant =>
    rw [faults, hvariant] at h
    simp only [leafFaults, List.append_eq_nil_iff, requiredTextFaults_eq_nil_iff,
      optionalTextFaults_eq_nil_iff, priorityFaults_eq_nil_iff] at h
    obtain ⟨⟨⟨⟨⟨hfact, hoperator⟩, hvalue⟩, hpath⟩, hpriority⟩, hname⟩ := h
    split at hvalue
    · exact .leaf hvariant hfact hoperator ‹_› hpath hpriority hname
    · cases hvalue
  | case5 v hother =>
    have hnone : v.toObject? = none := by
      cases v with
      | object t => exact absurd rfl (hother t)
      | _ => rfl
    rw [faults_of_toObject? hnone] at h
    cases h

/-- A definition is read just if it is well formed. Any other has faults, and reading fails with the
first of them: those of an object itself come before those of the conditions inside it, and these
come from left to right. -/
theorem ofJson_first_fault (v : Json) :
    ((∃ c, ofJson v = .ok c) ↔ WellFormed v) ∧
      (WellFormed v ↔ faults v = []) ∧
      ∀ fault, ofJson v = .error fault ↔ (faults v).head? = some fault := by
  have hnil : WellFormed v ↔ faults v = [] :=
    ⟨WellFormed.faults_eq_nil, wellFormed_of_faults_eq_nil⟩
  have hreports := reports_ofJson v
  refine ⟨?_, hnil, fun fault => ?_⟩
  · rw [hnil]
    exact hreports.exists_ok_iff
  · exact hreports.error_iff

/-- A name that is no text counts before what is missing in the conditions inside. -/
example : ofJson (.object (.ofList [("all", .array [.object .empty]), ("name", .bool true)])) =
    .error (.invalidField "name" (.otherThanString .boolean)) := rfl

end Condition
end Verdict
