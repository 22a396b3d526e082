import Verdict.Condition.Writer
import Verdict.Proofs.Condition.Reading

/-!
# Written conditions are a normal form

A condition that was read and written again reads as the same condition. What is written agrees
with the definition that was read on every member, at every depth, except that priorities are
integers and members that count as absent are left out.
-/
namespace Verdict.Condition

variable {t t' : Table Json} {fields : List String} {key : String}

/-- The tables agree on every key that is not listed. -/
def AgreeOutside (fields : List String) (t t' : Table Json) : Prop :=
  ∀ key, key ∉ fields → t'.get? key = t.get? key

/-- A member that is null is left out, any other stays. -/
def DropsNull (key : String) (t t' : Table Json) : Prop :=
  t'.get? key = (t.get? key).filter (!·.isNull)

/-- A group or negation under `key` states the integer of its priority, or 1. -/
structure NormalHeading (key : String) (t t' : Table Json) : Prop where
  priority : ∃ p, priorityOf (t.get? "priority") = .ok p ∧
    t'.get? "priority" = some (.ofInt64 ((p.filter (· != 0)).getD 1))
  name : DropsNull "name" t t'
  other : AgreeOutside [key, "priority", "name"] t t'

/-- A reference or comparison states the integer of its priority if it has one. -/
def NormalPriority (t t' : Table Json) : Prop :=
  ∃ p, priorityOf (t.get? "priority") = .ok p ∧ t'.get? "priority" = p.map .ofInt64

mutual

/-- The second value is the normal form of the first, which defines a condition. -/
inductive Normalizes : Json → Json → Prop
  | group {t t' : Table Json} {q : Quantifier} {items items' : List Json}
      (hconnective : connectiveOf? t = some q.connective)
      (hheading : NormalHeading q.connective.key t t')
      (hget : t.get? q.connective.key = some (.array items))
      (hget' : t'.get? q.connective.key = some (.array items'))
      (hitems : NormalizesAll items items') : Normalizes (.object t) (.object t')
  | not {t t' : Table Json} {v v' : Json} (hconnective : connectiveOf? t = some .not)
      (hheading : NormalHeading "not" t t') (hget : t.get? "not" = some v)
      (hget' : t'.get? "not" = some v') (hv : Normalizes v v') : Normalizes (.object t) (.object t')
  | reference {t t' : Table Json} (hconnective : connectiveOf? t = none)
      (hcontains : t.contains "condition" = true) (hpriority : NormalPriority t t')
      (hname : DropsNull "name" t t') (hother : AgreeOutside ["priority", "name"] t t') :
      Normalizes (.object t) (.object t')
  | leaf {t t' : Table Json} (hconnective : connectiveOf? t = none)
      (hcontains : t.contains "condition" = false) (hpriority : NormalPriority t t')
      (hname : DropsNull "name" t t') (hparams : DropsNull "params" t t')
      (hpath : DropsNull "path" t t')
      (hresults : ∀ key ∈ ["factResult", "valueResult", "result"], t'.get? key = none)
      (hother : AgreeOutside
        ["priority", "name", "params", "path", "factResult", "valueResult", "result"] t t') :
      Normalizes (.object t) (.object t')

inductive NormalizesAll : List Json → List Json → Prop
  | nil : NormalizesAll [] []
  | cons {v v' : Json} {items items' : List Json} (hv : Normalizes v v')
      (hitems : NormalizesAll items items') : NormalizesAll (v :: items) (v' :: items')

end

theorem get?_put (t : Table Json) (key key' : String) (v : Option Json) :
    (put t key' v).get? key = if key = key' then v.or (t.get? key) else t.get? key := by
  cases v with
  | none => simp [put]
  | some v => simp [put, Table.get?_insert]

theorem without_insert (h : key ∈ fields) (t : Table Json) (v : Json) :
    without (t.insert key v) fields = without t fields :=
  Table.retain_insert (by simpa using h) t v

theorem without_put (h : key ∈ fields) (t : Table Json) (v : Option Json) :
    without (put t key v) fields = without t fields := by
  cases v with
  | none => rfl
  | some v => exact without_insert h t v

theorem without_without (t : Table Json) (fields : List String) :
    without (without t fields) fields = without t fields :=
  Table.retain_retain t

theorem priorityOf_number {n : Number} {p : Int64} (h : numberPriority? n = some p) :
    priorityOf (some (.number n)) = .ok (some p) := by
  unfold priorityOf
  simp only [h]

theorem priorityOf_ofInt64 (p : Int64) : priorityOf (some (.ofInt64 p)) = .ok (some p) := by
  have h : Number.toInt64? (.ofInt64 p) = some p := by
    have hle := p.le_toInt
    have hlt := p.toInt_lt
    simp only [Number.ofInt64, Number.toInt64?, int64?]
    rw [if_pos ⟨hle, hlt⟩, Int64.ofInt_toInt]
  exact priorityOf_number (by rw [numberPriority?, h]; rfl)

theorem priorityOf_map_ofInt64 (p : Option Int64) : priorityOf (p.map .ofInt64) = .ok p := by
  cases p with
  | none => rfl
  | some p => exact priorityOf_ofInt64 p

theorem filter_map_string (s : Option String) :
    (s.map Json.string).filter (!·.isNull) = s.map .string := by
  cases s <;> rfl

theorem connectiveOf?_congr (h : ∀ key ∈ ["any", "all", "not"], t'.contains key = t.contains key) :
    connectiveOf? t' = connectiveOf? t := by
  simp only [connectiveOf?, h "any" (by simp), h "all" (by simp), h "not" (by simp)]

theorem getD_filter_ne_zero (p : Option Int64) : (p.filter (· != 0)).getD 1 ≠ 0 := by
  cases p with
  | none => decide
  | some p =>
    by_cases h : p = 0
    · subst h
      decide
    · simp [Option.filter, h]

theorem AgreeOutside.contains (h : AgreeOutside fields t t') (key : String) (hkey : key ∉ fields) :
    t'.contains key = t.contains key :=
  congrArg Option.isSome (h key hkey)

theorem AgreeOutside.connectiveOf? (h : AgreeOutside fields t t')
    (hfields : ∀ key ∈ ["any", "all", "not"], key ∉ fields) :
    connectiveOf? t' = Condition.connectiveOf? t :=
  connectiveOf?_congr fun key hkey => h.contains key (hfields key hkey)

/-- What is written of a heading reads as the heading, and is its normal form. -/
theorem heading_written {h : Heading} (hpriority : key ≠ "priority") (hname : key ≠ "name")
    (hh : headingOf t key = .ok h) (v : Json) :
    headingOf (h.toTable.insert key v) key = .ok h ∧
      NormalHeading key t (h.toTable.insert key v) := by
  obtain ⟨⟨p, hp, hpriority'⟩, hname', hextra⟩ := headingOf_eq_ok_iff.1 hh
  have hgetPriority : (h.toTable.insert key v).get? "priority" = some (.ofInt64 h.priority) := by
    simp [Heading.toTable, Table.get?_insert, get?_put, hpriority.symm]
  have hgetName : (h.toTable.insert key v).get? "name" = h.name.map .string := by
    simp [Heading.toTable, Table.get?_insert, get?_put, hname.symm, ← hextra, get?_without]
  have hother : AgreeOutside [key, "priority", "name"] t (h.toTable.insert key v) := by
    intro key' hkey'
    have hne : key' ≠ key ∧ key' ≠ "priority" ∧ key' ≠ "name" := by simpa using hkey'
    simp [Heading.toTable, Table.get?_insert, get?_put, hne, ← hextra, get?_without]
  have hkept : without (h.toTable.insert key v) [key, "priority", "name"] = h.extra := by
    rw [without_insert (by simp), Heading.toTable, without_put (by simp), without_insert (by simp),
      ← hextra, without_without]
  constructor
  · refine headingOf_eq_ok_iff.2 ⟨⟨some h.priority, ?_, ?_⟩, ?_, hkept⟩
    · rw [hgetPriority, priorityOf_ofInt64]
    · have hne : h.priority ≠ 0 := hpriority' ▸ getD_filter_ne_zero p
      simp [Option.filter, hne]
    · rw [hgetName, filter_map_string]
  · exact ⟨⟨p, hp, hpriority' ▸ hgetPriority⟩, hgetName.trans hname'.symm, hother⟩

theorem reference_written {r : Reference} (hr : referenceOf t = .ok r) :
    referenceOf r.toTable = .ok r ∧ NormalPriority t r.toTable ∧ DropsNull "name" t r.toTable ∧
      AgreeOutside ["priority", "name"] t r.toTable := by
  obtain ⟨hcondition, hname, hp, hextra⟩ := referenceOf_eq_ok_iff.1 hr
  have hget (key : String) : r.toTable.get? key =
      if key = "condition" then some (.string r.condition)
      else if key = "priority" then r.priority.map .ofInt64
      else if key = "name" then r.name.map .string
      else t.get? key := by
    simp only [Reference.toTable, Table.get?_insert, get?_put, ← hextra, get?_without]
    grind
  have hgetName : r.toTable.get? "name" = r.name.map .string := hget "name"
  have hgetPriority : r.toTable.get? "priority" = r.priority.map .ofInt64 := hget "priority"
  have hother : AgreeOutside ["priority", "name"] t r.toTable := by
    intro key hkey
    have hne : key ≠ "priority" ∧ key ≠ "name" := by simpa using hkey
    rw [hget, if_neg hne.1, if_neg hne.2]
    split
    · rename_i hc
      rw [hc, hcondition]
    · rfl
  have hkept : without r.toTable ["condition", "name", "priority"] = r.extra := by
    rw [Reference.toTable, without_insert (by simp), without_put (by simp), without_put (by simp),
      ← hextra, without_without]
  refine ⟨referenceOf_eq_ok_iff.2 ⟨hget "condition", ?_, ?_, hkept⟩, ⟨r.priority, hp, hgetPriority⟩,
    hgetName.trans hname.symm, hother⟩
  · rw [hgetName, filter_map_string]
  · rw [hgetPriority, priorityOf_map_ofInt64]

/-- A leaf without an observation writes its members over the others. -/
theorem Leaf.toTable_eq {l : Leaf} (hobservation : l.observation = none) :
    l.toTable =
      put (put ((((put (put l.extra "priority" (l.priority.map .ofInt64)) "name"
        (l.name.map .string)).insert "operator" (.string l.operator)).insert "value"
        l.value).insert "fact" (.string l.fact)) "params" l.params) "path"
        (l.path.map .string) := by
  rw [Leaf.toTable, hobservation]
  rfl

theorem Leaf.get?_toTable {l : Leaf} (hobservation : l.observation = none)
    (hextra : without t leafFields = l.extra) (key : String) :
    l.toTable.get? key =
      if key = "fact" then some (.string l.fact)
      else if key = "operator" then some (.string l.operator)
      else if key = "value" then some l.value
      else if key = "params" then l.params
      else if key = "path" then l.path.map .string
      else if key = "priority" then l.priority.map .ofInt64
      else if key = "name" then l.name.map .string
      else if key ∈ ["factResult", "valueResult", "result"] then none
      else t.get? key := by
  simp only [toTable_eq hobservation, Table.get?_insert, get?_put, ← hextra, get?_without,
    leafFields]
  grind

theorem Leaf.without_toTable {l : Leaf} (hobservation : l.observation = none)
    (hextra : without t leafFields = l.extra) : without l.toTable leafFields = l.extra := by
  rw [toTable_eq hobservation, without_put (by simp [leafFields]),
    without_put (by simp [leafFields]), without_insert (by simp [leafFields]),
    without_insert (by simp [leafFields]), without_insert (by simp [leafFields]),
    without_put (by simp [leafFields]), without_put (by simp [leafFields]), ← hextra,
    without_without]

theorem leaf_written {l : Leaf} (hl : leafOf t = .ok l) :
    leafOf l.toTable = .ok l ∧ NormalPriority t l.toTable ∧ DropsNull "name" t l.toTable ∧
      DropsNull "params" t l.toTable ∧ DropsNull "path" t l.toTable ∧
      (∀ key ∈ ["factResult", "valueResult", "result"], l.toTable.get? key = none) ∧
      AgreeOutside ["priority", "name", "params", "path", "factResult", "valueResult", "result"] t
        l.toTable := by
  obtain ⟨hfact, hoperator, hvalue, hparams, hpath, hp, hname, hextra, hobservation⟩ :=
    leafOf_eq_ok_iff.1 hl
  have hget := Leaf.get?_toTable hobservation hextra
  have hgetParams : l.toTable.get? "params" = l.params := hget "params"
  have hgetPath : l.toTable.get? "path" = l.path.map .string := hget "path"
  have hgetPriority : l.toTable.get? "priority" = l.priority.map .ofInt64 := hget "priority"
  have hgetName : l.toTable.get? "name" = l.name.map .string := hget "name"
  have hresults (key : String) (hkey : key ∈ ["factResult", "valueResult", "result"]) :
      l.toTable.get? key = none := by
    rw [hget, if_pos hkey]
    simp only [List.mem_cons, List.not_mem_nil, or_false] at hkey
    rcases hkey with rfl | rfl | rfl <;> rfl
  have hother : AgreeOutside
      ["priority", "name", "params", "path", "factResult", "valueResult", "result"] t
      l.toTable := by
    intro key hkey
    by_cases hread : key = "fact" ∨ key = "operator" ∨ key = "value"
    · rcases hread with rfl | rfl | rfl
      · exact (hget "fact").trans hfact.symm
      · exact (hget "operator").trans hoperator.symm
      · exact (hget "value").trans hvalue.symm
    · simp only [List.mem_cons, List.not_mem_nil, or_false, not_or] at hkey hread
      simp [hget, hkey, hread]
  refine ⟨leafOf_eq_ok_iff.2 ⟨hget "fact", hget "operator", hget "value", ?_, ?_, ?_, ?_,
    Leaf.without_toTable hobservation hextra, hobservation⟩, ⟨l.priority, hp, hgetPriority⟩,
    hgetName.trans hname.symm, hgetParams.trans hparams.symm, hgetPath.trans hpath.symm, hresults,
    hother⟩
  · rw [hgetParams, ← hparams, Option.filter_filter]
    simp
  · rw [hgetPath, filter_map_string]
  · rw [hgetPriority, priorityOf_map_ofInt64]
  · rw [hgetName, filter_map_string]

theorem key_ne_priority (q : Quantifier) : q.connective.key ≠ "priority" := by
  cases q <;> decide

theorem key_ne_name (q : Quantifier) : q.connective.key ≠ "name" := by
  cases q <;> decide

/-- Where a group or negation is written, the same connective decides. -/
theorem NormalHeading.connectiveOf?_eq (h : NormalHeading key t t')
    (hget : t.contains key = true) (hget' : t'.contains key = true) :
    connectiveOf? t' = connectiveOf? t := by
  refine connectiveOf?_congr fun key' hkey' => ?_
  by_cases hkey : key' = key
  · rw [hkey, hget, hget']
  · refine h.other.contains key' ?_
    have hne : key' ≠ "priority" ∧ key' ≠ "name" := by
      constructor <;> (rintro rfl; simp at hkey')
    simp [hkey, hne]

theorem contains_of_get? {v : Json} (h : t.get? key = some v) : t.contains key = true := by
  rw [Table.contains, h]
  rfl

mutual

theorem normalizes_toJson : ∀ (c : Condition) {v : Json}, ofJson v = .ok c →
    ofJson c.toJson = .ok c ∧ Normalizes v c.toJson
  | .group q h cs, v, hv => by
    obtain ⟨t, rfl, hdefines⟩ := ofJson_eq_ok_iff.1 hv
    cases hdefines with
    | @group _ _ items _ hconnective hheading hget hitems =>
      have hget' : (h.toTable.insert q.connective.key (.array (toItems cs))).get?
          q.connective.key = some (.array (toItems cs)) := Table.get?_insert_self _ _ _
      obtain ⟨hread, hnormal⟩ := heading_written (key_ne_priority q) (key_ne_name q) hheading
        (.array (toItems cs))
      obtain ⟨hreadItems, hnormalItems⟩ := normalizesAll_toItems cs hitems
      have hsame := hnormal.connectiveOf?_eq (contains_of_get? hget) (contains_of_get? hget')
      exact ⟨ofJson_object_eq_ok_iff.2 (.group (hsame.trans hconnective) hread hget' hreadItems),
        .group hconnective hnormal hget hget' hnormalItems⟩
  | .not h c, v, hv => by
    obtain ⟨t, rfl, hdefines⟩ := ofJson_eq_ok_iff.1 hv
    cases hdefines with
    | @not _ v _ hconnective hheading hget hv =>
      have hget' : (h.toTable.insert "not" c.toJson).get? "not" = some c.toJson :=
        Table.get?_insert_self _ _ _
      obtain ⟨hread, hnormal⟩ := heading_written (by decide) (by decide) hheading c.toJson
      obtain ⟨hreadInner, hnormalInner⟩ := normalizes_toJson c hv
      have hsame := hnormal.connectiveOf?_eq (contains_of_get? hget) (contains_of_get? hget')
      exact ⟨ofJson_object_eq_ok_iff.2 (.not (hsame.trans hconnective) hread hget' hreadInner),
        .not hconnective hnormal hget hget' hnormalInner⟩
  | .reference r, v, hv => by
    obtain ⟨t, rfl, hdefines⟩ := ofJson_eq_ok_iff.1 hv
    cases hdefines with
    | reference hconnective hcontains hr =>
      obtain ⟨hread, hpriority, hname, hother⟩ := reference_written hr
      have hsame := hother.connectiveOf? (by simp)
      have hcontains' := (hother.contains "condition" (by simp)).trans hcontains
      exact ⟨ofJson_object_eq_ok_iff.2 (.reference (hsame.trans hconnective) hcontains' hread),
        .reference hconnective hcontains hpriority hname hother⟩
  | .leaf l, v, hv => by
    obtain ⟨t, rfl, hdefines⟩ := ofJson_eq_ok_iff.1 hv
    cases hdefines with
    | leaf hconnective hcontains hl =>
      obtain ⟨hread, hpriority, hname, hparams, hpath, hresults, hother⟩ := leaf_written hl
      have hsame := hother.connectiveOf? (by simp)
      have hcontains' := (hother.contains "condition" (by simp)).trans hcontains
      exact ⟨ofJson_object_eq_ok_iff.2 (.leaf (hsame.trans hconnective) hcontains' hread),
        .leaf hconnective hcontains hpriority hname hparams hpath hresults hother⟩

theorem normalizesAll_toItems : ∀ (cs : List Condition) {items : List Json},
    ofItems items = .ok cs →
      ofItems (toItems cs) = .ok cs ∧ NormalizesAll items (toItems cs)
  | [], items, hitems => by
    cases items with
    | nil => exact ⟨rfl, .nil⟩
    | cons v rest =>
      obtain ⟨c, -, h⟩ := bind_eq_ok_iff.1 hitems
      obtain ⟨cs, -, hcs⟩ := bind_eq_ok_iff.1 h
      cases hcs
  | c :: cs, items, hitems => by
    cases items with
    | nil => cases hitems
    | cons v rest =>
      obtain ⟨c', hc, h⟩ := bind_eq_ok_iff.1 hitems
      obtain ⟨cs', hcs, heq⟩ := bind_eq_ok_iff.1 h
      cases heq
      obtain ⟨hread, hnormal⟩ := normalizes_toJson c hc
      obtain ⟨hreadAll, hnormalAll⟩ := normalizesAll_toItems cs hcs
      exact ⟨bind_eq_ok_iff.2 ⟨c, hread, bind_eq_ok_iff.2 ⟨cs, hreadAll, rfl⟩⟩,
        .cons hnormal hnormalAll⟩

end

/-- A condition that was read is written in normal form: what is written reads as the very same
condition, is written the same again, and differs from the definition only as `Normalizes` says. -/
theorem ofJson_toJson {v : Json} {c : Condition} (h : ofJson v = .ok c) :
    ofJson c.toJson = .ok c ∧ (ofJson c.toJson).map toJson = .ok c.toJson ∧
      Normalizes v c.toJson := by
  obtain ⟨hread, hnormal⟩ := normalizes_toJson c h
  refine ⟨hread, ?_, hnormal⟩
  rw [hread]
  rfl

/-- Keys of other variants survive beside the key that decides. -/
theorem ofJson_toJson_shadowed :
    let reference : Json := .object (.ofList
      [("condition", .string "adult"), ("fact", .string "age"), ("name", .null)])
    let v : Json := .object (.ofList
      [("all", .bool true), ("any", .array [reference]), ("priority", .string "0")])
    let c : Condition := .group .any ⟨1, none, .ofList [("all", .bool true)]⟩
      [.reference ⟨"adult", none, none, .ofList [("fact", .string "age")]⟩]
    ofJson v = .ok c ∧ ofJson c.toJson = .ok c ∧ (ofJson c.toJson).map toJson = .ok c.toJson ∧
      Normalizes v c.toJson := by
  intro reference v c
  have h : ofJson v = .ok c := by
    simp only [v, c, reference]
    rfl
  exact ⟨h, ofJson_toJson h⟩

end Verdict.Condition
