import Verdict.Condition.Inherit
import Verdict.Proofs.Condition.RoundTrip

/-!
# Conditions in place of references

A condition that takes over the metadata of a reference reads again as itself, except for a
comparison: members of the reference that a comparison has a meaning for come to stand in its
place, though it has no such member. Then it reads as another comparison, or not at all.
-/
namespace Verdict

namespace Table
variable {α : Type}

theorem isSome_lookup_of_mem {e : String × α} {l : List (String × α)} (h : e ∈ l) :
    (lookup e.1 l).isSome := by
  induction l with
  | nil => cases h
  | cons e' rest ih =>
    by_cases hk : e.1 = e'.1
    · simp [lookup, hk]
    · rcases List.mem_cons.1 h with rfl | h
      · exact absurd rfl hk
      · simpa [lookup, hk] using ih h

end Table

namespace Json

theorem isSome_lookup_of_equalMembers {l l' : List (String × Json)} (h : equalMembers l l' = true)
    (key : String) : (Table.lookup key l).isSome = (Table.lookup key l').isSome := by
  induction l generalizing l' with
  | nil =>
    cases l' with
    | nil => rfl
    | cons e' rest' => simp [equalMembers] at h
  | cons e rest ih =>
    cases l' with
    | nil => simp [equalMembers] at h
    | cons e' rest' =>
      simp only [equalMembers, Bool.and_eq_true, beq_iff_eq] at h
      obtain ⟨⟨hkey, -⟩, hrest⟩ := h
      by_cases hk : key = e.1
      · simp [Table.lookup, hk, ← hkey]
      · simpa [Table.lookup, hk, ← hkey] using ih hrest

end Json

namespace Condition
variable {fields : List String} {key : String} {r : Reference}

/-- None of the keys is in the table. -/
def Lacks (fields : List String) (t : Table Json) : Prop := ∀ key ∈ fields, t.get? key = none

theorem lacks_without (t : Table Json) (fields : List String) : Lacks fields (without t fields) :=
  fun key hkey => by rw [get?_without, if_pos hkey]

theorem without_eq_self_iff {t : Table Json} : without t fields = t ↔ Lacks fields t := by
  constructor
  · intro h
    exact h ▸ lacks_without t fields
  · intro h
    obtain ⟨l⟩ := t
    refine congrArg Table.mk (List.filter_eq_self.2 fun e he => ?_)
    by_cases hkey : e.1 ∈ fields
    · have hsome := Table.isSome_lookup_of_mem he
      rw [show Table.lookup e.1 l = none from h e.1 hkey] at hsome
      cases hsome
    · simpa using hkey

theorem lacks_addMissing_iff {t t' : Table Json} :
    Lacks fields (t.addMissing t') ↔ Lacks fields t ∧ Lacks fields t' := by
  simp only [Lacks, Table.get?_addMissing, Option.or_eq_none_iff, forall_and]

theorem Lacks.mono {fields' : List String} {t : Table Json} (h : Lacks fields t)
    (hsub : fields' ⊆ fields) : Lacks fields' t :=
  fun key hkey => h key (hsub hkey)

/-! What is written of a part reads as that part just if its other members are really others. -/

theorem without_heading (h : Heading) (key : String) (v : Json) :
    without (h.toTable.insert key v) [key, "priority", "name"] =
      without h.extra [key, "priority", "name"] := by
  rw [without_insert (by simp), Heading.toTable, without_put (by simp), without_insert (by simp)]

theorem headingOf_toTable_iff {h : Heading} (hpriority : key ≠ "priority") (hname : key ≠ "name")
    (v : Json) : headingOf (h.toTable.insert key v) key = .ok h ↔
      h.priority ≠ 0 ∧ Lacks [key, "priority", "name"] h.extra := by
  have hgetPriority : (h.toTable.insert key v).get? "priority" = some (.ofInt64 h.priority) := by
    simp [Heading.toTable, Table.get?_insert, get?_put, hpriority.symm]
  rw [headingOf_eq_ok_iff, without_heading, without_eq_self_iff, hgetPriority, priorityOf_ofInt64]
  constructor
  · rintro ⟨⟨p, hp, hstated⟩, -, hlacks⟩
    cases hp
    exact ⟨hstated ▸ getD_filter_ne_zero _, hlacks⟩
  · rintro ⟨hne, hlacks⟩
    refine ⟨⟨some h.priority, rfl, by simp [Option.filter, hne]⟩, ?_, hlacks⟩
    have hextra : h.extra.get? "name" = none := hlacks "name" (by simp)
    have hgetName : (h.toTable.insert key v).get? "name" = h.name.map .string := by
      simp [Heading.toTable, Table.get?_insert, get?_put, hname.symm, hextra]
    rw [hgetName, filter_map_string]

theorem referenceOf_toTable_iff :
    referenceOf r.toTable = .ok r ↔ Lacks ["condition", "name", "priority"] r.extra := by
  have hkept : without r.toTable ["condition", "name", "priority"] =
      without r.extra ["condition", "name", "priority"] := by
    rw [Reference.toTable, without_insert (by simp), without_put (by simp), without_put (by simp)]
  rw [referenceOf_eq_ok_iff, hkept, without_eq_self_iff]
  refine ⟨fun h => h.2.2.2, fun hlacks => ⟨Table.get?_insert_self _ _ _, ?_, ?_, hlacks⟩⟩
  · have hextra : r.extra.get? "name" = none := hlacks "name" (by simp)
    have hgetName : r.toTable.get? "name" = r.name.map .string := by
      simp [Reference.toTable, Table.get?_insert, get?_put, hextra]
    rw [hgetName, filter_map_string]
  · have hextra : r.extra.get? "priority" = none := hlacks "priority" (by simp)
    have hgetPriority : r.toTable.get? "priority" = r.priority.map .ofInt64 := by
      simp [Reference.toTable, Table.get?_insert, get?_put, hextra]
    rw [hgetPriority, priorityOf_map_ofInt64]

theorem leafOf_toTable {l : Leaf} (hlacks : Lacks leafFields l.extra) (ho : l.observation = none)
    (hparams : l.params.filter (!·.isNull) = l.params) : leafOf l.toTable = .ok l := by
  have hextra : without l.extra leafFields = l.extra := without_eq_self_iff.2 hlacks
  have hget := Leaf.get?_toTable ho hextra
  refine leafOf_eq_ok_iff.2 ⟨hget "fact", hget "operator", hget "value", ?_, ?_, ?_, ?_,
    Leaf.without_toTable ho hextra, ho⟩
  · rw [show l.toTable.get? "params" = l.params from hget "params", hparams]
  · rw [show l.toTable.get? "path" = l.path.map .string from hget "path", filter_map_string]
  · rw [show l.toTable.get? "priority" = l.priority.map .ofInt64 from hget "priority",
      priorityOf_map_ofInt64]
  · rw [show l.toTable.get? "name" = l.name.map .string from hget "name", filter_map_string]

/-! The members of a condition that was read. -/

theorem connectiveOf?_eq_none_iff {t : Table Json} :
    connectiveOf? t = none ↔ Lacks ["any", "all", "not"] t := by
  have hnone (key : String) : t.get? key = none ↔ t.contains key = false := by
    simp [Table.contains]
  simp only [Lacks, List.forall_mem_cons, List.not_mem_nil, false_implies, implies_true, hnone,
    connectiveOf?]
  cases t.contains "any" <;> cases t.contains "all" <;> cases t.contains "not" <;> simp

theorem defines_leaf_iff {t : Table Json} {l : Leaf} :
    Defines t (leaf l) ↔ Lacks ["any", "all", "not", "condition"] t ∧ leafOf t = .ok l := by
  have hiff : Lacks ["any", "all", "not", "condition"] t ↔
      connectiveOf? t = none ∧ t.contains "condition" = false := by
    rw [connectiveOf?_eq_none_iff]
    simp [Lacks, Table.contains, and_assoc]
  rw [hiff]
  constructor
  · rintro (_ | _)
    exact ⟨⟨‹_›, ‹_›⟩, ‹_›⟩
  · rintro ⟨⟨hconnective, hcontains⟩, hl⟩
    exact .leaf hconnective hcontains hl

theorem lacks_of_ofJson_reference {v : Json} (h : ofJson v = .ok (.reference r)) :
    Lacks ["any", "all", "not", "condition", "name", "priority"] r.extra := by
  obtain ⟨t, rfl, hdefines⟩ := ofJson_eq_ok_iff.1 h
  cases hdefines with
  | reference hconnective _ hr =>
    have hjoins := connectiveOf?_eq_none_iff.1 hconnective
    obtain ⟨-, -, -, hextra⟩ := referenceOf_eq_ok_iff.1 hr
    intro key hkey
    rw [← hextra, get?_without]
    split
    · rfl
    · rename_i hother
      refine hjoins key ?_
      simp only [List.mem_cons, List.not_mem_nil, or_false, not_or] at hkey hother ⊢
      simpa [hother] using hkey

theorem get?_toTable_heading {h : Heading} (hpriority : key ≠ "priority") (hname : key ≠ "name")
    (own : String) (v : Json) : (h.toTable.insert own v).get? key =
      if key = own then some v else h.extra.get? key := by
  simp [Heading.toTable, Table.get?_insert, get?_put, hpriority, hname]

theorem lacks_toTable_reference (hother : ∀ key ∈ fields, key ∉ ["condition", "name", "priority"]) :
    Lacks fields r.toTable ↔ Lacks fields r.extra := by
  refine forall₂_congr fun key hkey => ?_
  have hne := hother key hkey
  simp only [List.mem_cons, List.not_mem_nil, or_false, not_or] at hne
  simp [Reference.toTable, Table.get?_insert, get?_put, hne]

theorem lacks_toTable_leaf {l : Leaf} (hother : ∀ key ∈ fields, key ∉ leafFields) :
    Lacks fields l.toTable ↔ Lacks fields l.extra := by
  refine forall₂_congr fun key hkey => ?_
  have hne := hother key hkey
  simp only [leafFields, List.mem_cons, List.not_mem_nil, or_false, not_or] at hne
  simp [Leaf.toTable, Table.get?_insert, get?_put, hne]

/-- The heading of a group or negation that takes over the metadata of a reference. -/
def Heading.inherit (h : Heading) (r : Reference) : Heading :=
  { h with name := h.name.or r.name, extra := h.extra.addMissing r.extra }

/-- A heading with more members, none of which has a meaning for it, reads as itself like before,
and the same connective decides. -/
theorem heading_inherit {h : Heading} {own : String} {v : Json} {connective : Option Connective}
    (hown : own ∈ ["any", "all", "not"])
    (hr : Lacks ["any", "all", "not", "condition", "name", "priority"] r.extra)
    (hheading : headingOf (h.toTable.insert own v) own = .ok h)
    (hconnective : connectiveOf? (h.toTable.insert own v) = connective) :
    headingOf ((h.inherit r).toTable.insert own v) own = .ok (h.inherit r) ∧
      connectiveOf? ((h.inherit r).toTable.insert own v) = connective := by
  have hne : own ≠ "priority" ∧ own ≠ "name" := by
    constructor <;> (rintro rfl; simp at hown)
  constructor
  · obtain ⟨hpos, hother⟩ := (headingOf_toTable_iff hne.1 hne.2 v).1 hheading
    have hmore : Lacks [own, "priority", "name"] r.extra :=
      hr.mono (by simp only [List.mem_cons, List.not_mem_nil, or_false] at hown; grind)
    exact (headingOf_toTable_iff hne.1 hne.2 v).2 ⟨hpos, lacks_addMissing_iff.2 ⟨hother, hmore⟩⟩
  · rw [← hconnective]
    refine connectiveOf?_congr fun key hkey => ?_
    have hne' : key ≠ "priority" ∧ key ≠ "name" := by
      constructor <;> (rintro rfl; simp at hkey)
    have hnone : r.extra.get? key = none := hr.mono (by simp) key hkey
    rw [Table.contains, Table.contains, get?_toTable_heading hne'.1 hne'.2,
      get?_toTable_heading hne'.1 hne'.2, Heading.inherit, Table.get?_addMissing, hnone,
      Option.or_none]

theorem key_mem (q : Quantifier) : q.connective.key ∈ ["any", "all", "not"] := by
  cases q <;> decide

/-- A comparison has a meaning for none of the other members of the reference. Only a comparison
asks for this. -/
def Suits (r : Reference) : Condition → Prop
  | leaf _ => Lacks leafFields r.extra
  | _ => True

/-- With suitable metadata, a condition that was read reads as itself again. -/
theorem ofJson_toJson_inherit {v w : Json} {t : Condition} (ht : ofJson v = .ok t)
    (hr : ofJson w = .ok (.reference r)) (hsuits : Suits r t) :
    ofJson (t.inherit r).toJson = .ok (t.inherit r) := by
  have hlacks := lacks_of_ofJson_reference hr
  have hagain := (normalizes_toJson t ht).1
  cases t with
  | group q h cs =>
    cases ofJson_object_eq_ok_iff.1 hagain with
    | @group _ _ items _ hconnective hheading hget hitems =>
      obtain ⟨hheading', hconnective'⟩ := heading_inherit (key_mem q) hlacks hheading hconnective
      rw [Table.get?_insert_self] at hget
      cases hget
      exact ofJson_object_eq_ok_iff.2
        (.group hconnective' hheading' (Table.get?_insert_self _ _ _) hitems)
  | not h c =>
    cases ofJson_object_eq_ok_iff.1 hagain with
    | @not _ v _ hconnective hheading hget hv =>
      obtain ⟨hheading', hconnective'⟩ :=
        heading_inherit (by simp) hlacks hheading hconnective
      rw [Table.get?_insert_self] at hget
      cases hget
      exact ofJson_object_eq_ok_iff.2
        (.not hconnective' hheading' (Table.get?_insert_self _ _ _) hv)
  | reference r' =>
    cases ofJson_object_eq_ok_iff.1 hagain with
    | reference hconnective hcontains hr' =>
      have hother := referenceOf_toTable_iff.1 hr'
      have hjoins := (lacks_toTable_reference (by simp)).1 (connectiveOf?_eq_none_iff.1 hconnective)
      refine ofJson_object_eq_ok_iff.2 (.reference ?_ ?_ ?_)
      · rw [connectiveOf?_eq_none_iff, lacks_toTable_reference (by simp)]
        exact lacks_addMissing_iff.2 ⟨hjoins, hlacks.mono (by simp)⟩
      · exact contains_of_get? (Table.get?_insert_self _ _ _)
      · exact referenceOf_toTable_iff.2
          (lacks_addMissing_iff.2 ⟨hother, hlacks.mono (by simp)⟩)
  | leaf l =>
    obtain ⟨hnone, hl⟩ := defines_leaf_iff.1 (ofJson_object_eq_ok_iff.1 hagain)
    obtain ⟨-, -, -, hparams, -, -, -, hextra, hobservation⟩ := leafOf_eq_ok_iff.1 hl
    rw [lacks_toTable_leaf (by decide)] at hnone
    refine ofJson_object_eq_ok_iff.2 (defines_leaf_iff.2 ⟨?_, leafOf_toTable ?_ hobservation ?_⟩)
    · rw [lacks_toTable_leaf (by decide)]
      exact lacks_addMissing_iff.2 ⟨hnone, hlacks.mono (by simp)⟩
    · exact lacks_addMissing_iff.2 ⟨hextra ▸ lacks_without _ _, hsuits⟩
    · change l.params.filter (!·.isNull) = l.params
      rw [← hparams, Option.filter_filter]
      simp

/-- Members that a comparison has a meaning for are not among the others of one that was read. -/
theorem lacks_of_ofJson_leaf {v : Json} {l : Leaf} (h : ofJson v = .ok (leaf l)) :
    Lacks leafFields l.extra := by
  obtain ⟨t, rfl, hdefines⟩ := ofJson_eq_ok_iff.1 h
  obtain ⟨-, -, -, -, -, -, -, hextra, -⟩ := leafOf_eq_ok_iff.1 (defines_leaf_iff.1 hdefines).2
  exact hextra ▸ lacks_without _ _

theorem lacks_of_beq_leaf {v : Json} {l : Leaf} {c : Condition} (h : ofJson v = .ok c)
    (he : (c == leaf l) = true) : Lacks leafFields l.extra := by
  cases c with
  | leaf l' =>
    have hequal : Leaf.equal l' l = true := he
    simp only [Leaf.equal, Bool.and_eq_true] at hequal
    intro key hkey
    have hsome := Json.isSome_lookup_of_equalMembers hequal.2 key
    have hnone : Table.lookup key l'.extra.entries = none := lacks_of_ofJson_leaf h key hkey
    rw [hnone] at hsome
    exact Option.not_isSome_iff_eq_none.1 (hsome ▸ Bool.false_ne_true)
  | _ => simp [BEq.beq, equal] at he

/-- The members that only a comparison has. -/
def ownFields : List String :=
  ["fact", "operator", "value", "params", "path", "factResult", "valueResult", "result"]

/-- What a comparison shows under a key of its own is its own, or else the reference's. -/
theorem member?_inherit_leaf {l : Leaf} (hlacks : Lacks leafFields l.extra)
    (hkey : key ∈ ownFields) : ((leaf l).inherit r).toJson.member? key =
      ((leaf l).toJson.member? key).or (r.extra.get? key) := by
  have hnone : l.extra.get? key = none :=
    hlacks.mono (by simp [ownFields, leafFields]) key hkey
  change (Leaf.toTable { l with
    name := l.name.or r.name
    priority := l.priority.or r.priority
    extra := l.extra.addMissing r.extra }).get? key = (l.toTable.get? key).or (r.extra.get? key)
  simp only [ownFields, List.mem_cons, List.not_mem_nil, or_false] at hkey
  rcases hkey with rfl | rfl | rfl | rfl | rfl | rfl | rfl | rfl
  all_goals
    simp [Leaf.toTable, Table.get?_insert, get?_put, Table.get?_addMissing, hnone]

/-- A condition that takes over the metadata of a reference reads as itself again just if the
reference suits it; otherwise it reads as none that equals it. A comparison then shows what it has,
and where it has nothing the member of the reference. -/
theorem inherit_reads_iff {v w : Json} {t : Condition} (ht : ofJson v = .ok t)
    (hr : ofJson w = .ok (.reference r)) :
    (ofJson (t.inherit r).toJson = .ok (t.inherit r) ↔ Suits r t) ∧
      (¬ Suits r t → ∀ c, ofJson (t.inherit r).toJson = .ok c → (c == t.inherit r) = false) ∧
      ∀ l, t = leaf l → ∀ key ∈ ownFields, (t.inherit r).toJson.member? key =
        (t.toJson.member? key).or (r.extra.get? key) := by
  refine ⟨⟨fun h => ?_, ofJson_toJson_inherit ht hr⟩, fun hsuits c hc => ?_, ?_⟩
  · cases t with
    | leaf l => exact (lacks_addMissing_iff.1 (lacks_of_ofJson_leaf h)).2
    | _ => trivial
  · cases t with
    | leaf l =>
      refine Bool.eq_false_iff.2 fun he => hsuits ?_
      exact (lacks_addMissing_iff.1 (lacks_of_beq_leaf hc he)).2
    | _ => exact absurd trivial hsuits
  · rintro l rfl key hkey
    exact member?_inherit_leaf (lacks_of_ofJson_leaf ht) hkey

/-- A name, a priority and a note suit a comparison. -/
theorem inherit_reads_note :
    let v : Json := .object (.ofList
      [("fact", .string "age"), ("operator", .string "equal"), ("value", .bool true)])
    let w : Json := .object (.ofList [("condition", .string "adult"), ("name", .string "check"),
      ("note", .null), ("priority", .ofInt64 7)])
    let t : Condition := .leaf (.ofComparison "age" "equal" (.bool true))
    let r : Reference := ⟨"adult", some "check", some 7, .ofList [("note", .null)]⟩
    ofJson v = .ok t ∧ ofJson w = .ok (.reference r) ∧ Suits r t ∧
      ofJson (t.inherit r).toJson = .ok (t.inherit r) := by
  intro v w t r
  have ht : ofJson v = .ok t := rfl
  have hr : ofJson w = .ok (.reference r) := rfl
  have hsuits : Suits r t := by
    change Lacks leafFields (.ofList [("note", .null)])
    simp only [Lacks, leafFields, List.forall_mem_cons]
    exact ⟨rfl, rfl, rfl, rfl, rfl, rfl, rfl, rfl, rfl, rfl, List.forall_mem_nil _⟩
  exact ⟨ht, hr, hsuits, (inherit_reads_iff ht hr).1.2 hsuits⟩

/-- A path beside a reference becomes that of the comparison when this is written and read. -/
theorem inherit_reads_path :
    let v : Json := .object (.ofList
      [("fact", .string "age"), ("operator", .string "equal"), ("value", .bool true)])
    let w : Json := .object (.ofList [("condition", .string "adult"), ("path", .string "$.years")])
    let l : Leaf := .ofComparison "age" "equal" (.bool true)
    let r : Reference := ⟨"adult", none, none, .ofList [("path", .string "$.years")]⟩
    let c : Condition := .leaf { l with path := some "$.years" }
    ofJson v = .ok (.leaf l) ∧ ofJson w = .ok (.reference r) ∧
      ofJson ((leaf l).inherit r).toJson = .ok c ∧ (c == (leaf l).inherit r) = false :=
  ⟨rfl, rfl, rfl, rfl⟩

end Condition
end Verdict
