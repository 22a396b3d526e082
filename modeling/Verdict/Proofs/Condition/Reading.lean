import Verdict.Condition.Reader

/-!
# What the reader of conditions accepts

Reading an object succeeds exactly if each member that its variant has a meaning for can be read,
and then the condition consists of what was read and of the other members.
-/
namespace Verdict

namespace Table
variable {α : Type} {p : String → Bool}

theorem filter_place {k : String} (hk : p k = false) (v : α) (l : List (String × α)) :
    (place k v l).filter (fun e => p e.1) = l.filter fun e => p e.1 := by
  induction l with
  | nil => simp [place, hk]
  | cons e rest ih =>
    by_cases he : k = e.1
    · simp [place, ← he, hk]
    · by_cases hlt : k < e.1
      · simp [place, he, hlt, hk]
      · simp only [place, if_neg he, if_neg hlt, List.filter_cons, ih]

theorem retain_insert {k : String} (hk : p k = false) (t : Table α) (v : α) :
    (t.insert k v).retain p = t.retain p :=
  congrArg Table.mk (filter_place hk v t.entries)

theorem retain_retain (t : Table α) : (t.retain p).retain p = t.retain p := by
  simp [retain, List.filter_filter]

end Table

theorem bind_eq_ok_iff {ε α β : Type} {x : Except ε α} {f : α → Except ε β} {b : β} :
    x >>= f = .ok b ↔ ∃ a, x = .ok a ∧ f a = .ok b := by
  cases x with
  | error e => exact ⟨nofun, nofun⟩
  | ok a => exact ⟨fun h => ⟨a, rfl, h⟩, fun ⟨_, ha, h⟩ => Except.ok.inj ha ▸ h⟩

theorem map_eq_ok_iff {ε α β : Type} {x : Except ε α} {f : α → β} {b : β} :
    x.map f = .ok b ↔ ∃ a, x = .ok a ∧ f a = b := by
  cases x with
  | error e => exact ⟨nofun, nofun⟩
  | ok a => simp [Except.map]

namespace Condition

theorem get?_without (t : Table Json) (fields : List String) (key : String) :
    (without t fields).get? key = if key ∈ fields then none else t.get? key := by
  rw [without, Table.get?_retain]
  by_cases h : key ∈ fields <;> simp [h]

theorem optionalString_eq_ok_iff {t : Table Json} {field : String} {s : Option String} :
    optionalString t field = .ok s ↔ (t.get? field).filter (!·.isNull) = s.map .string := by
  unfold optionalString
  rcases t.get? field with - | v
  · cases s <;> simp
  · cases v <;> cases s <;> simp [Json.isNull]

theorem requiredString_eq_ok_iff {t : Table Json} {field s : String} :
    requiredString t field = .ok s ↔ t.get? field = some (.string s) := by
  unfold requiredString
  rcases t.get? field with - | v
  · simp
  · cases v <;> simp

theorem headingOf_eq_ok_iff {t : Table Json} {key : String} {h : Heading} :
    headingOf t key = .ok h ↔
      (∃ p, priorityOf (t.get? "priority") = .ok p ∧ (p.filter (· != 0)).getD 1 = h.priority) ∧
        (t.get? "name").filter (!·.isNull) = h.name.map .string ∧
        without t [key, "priority", "name"] = h.extra := by
  simp only [headingOf, bind_eq_ok_iff, ← optionalString_eq_ok_iff]
  constructor
  · rintro ⟨p, hp, name, hname, hh⟩
    cases hh
    exact ⟨⟨p, hp, rfl⟩, hname, rfl⟩
  · rintro ⟨⟨p, hp, hpriority⟩, hname, hextra⟩
    refine ⟨p, hp, h.name, hname, ?_⟩
    rw [hpriority, hextra]
    rfl

theorem referenceOf_eq_ok_iff {t : Table Json} {r : Reference} :
    referenceOf t = .ok r ↔
      t.get? "condition" = some (.string r.condition) ∧
        (t.get? "name").filter (!·.isNull) = r.name.map .string ∧
        priorityOf (t.get? "priority") = .ok r.priority ∧
        without t ["condition", "name", "priority"] = r.extra := by
  unfold referenceOf
  split
  · rename_i condition hcondition
    simp only [bind_eq_ok_iff, hcondition, ← optionalString_eq_ok_iff]
    constructor
    · rintro ⟨_, hc, name, hname, p, hp, hr⟩
      cases hc
      cases hr
      exact ⟨rfl, hname, hp, rfl⟩
    · rintro ⟨hc, hname, hp, hextra⟩
      cases hc
      refine ⟨_, rfl, r.name, hname, r.priority, hp, ?_⟩
      rw [hextra]
      rfl
  · rename_i hcondition
    exact ⟨nofun, fun h => absurd h.1 (hcondition _)⟩

theorem leafOf_eq_ok_iff {t : Table Json} {l : Leaf} :
    leafOf t = .ok l ↔
      t.get? "fact" = some (.string l.fact) ∧
        t.get? "operator" = some (.string l.operator) ∧
        t.get? "value" = some l.value ∧
        (t.get? "params").filter (!·.isNull) = l.params ∧
        (t.get? "path").filter (!·.isNull) = l.path.map .string ∧
        priorityOf (t.get? "priority") = .ok l.priority ∧
        (t.get? "name").filter (!·.isNull) = l.name.map .string ∧
        without t leafFields = l.extra ∧ l.observation = none := by
  simp only [leafOf, bind_eq_ok_iff, ← requiredString_eq_ok_iff]
  cases hvalue : t.get? "value" with
  | none => exact ⟨fun ⟨_, _, _, _, h⟩ => (nomatch h), fun h => (nomatch h.2.2.1)⟩
  | some value =>
    simp only [bind_eq_ok_iff, ← optionalString_eq_ok_iff]
    constructor
    · rintro ⟨fact, hfact, operator, hoperator, _, hv, path, hpath, p, hp, name, hname, hl⟩
      cases hv
      cases hl
      exact ⟨hfact, hoperator, rfl, rfl, hpath, hp, hname, rfl, rfl⟩
    · rintro ⟨hfact, hoperator, hv, hparams, hpath, hp, hname, hextra, hobservation⟩
      cases hv
      refine ⟨l.fact, hfact, l.operator, hoperator, _, rfl, l.path, hpath, l.priority, hp,
        l.name, hname, ?_⟩
      rw [hparams, hextra, ← hobservation]
      rfl

theorem groupAt_eq (key : String) (t : Table Json) : groupAt key t.entries =
    match t.get? key with
    | none => .error (.missingField key)
    | some v =>
      match v.toArray? with
      | some items => ofItems items
      | none => .error (.notAnArray key) := by
  obtain ⟨l⟩ := t
  simp only [Table.get?]
  induction l with
  | nil => rw [groupAt, Table.lookup]
  | cons e rest ih =>
    obtain ⟨k, v⟩ := e
    by_cases hk : key = k
    · cases v <;> simp [groupAt, Table.lookup, hk, Json.toArray?]
    · cases v <;> simp [groupAt, Table.lookup, hk, ih]

theorem negatedAt_eq (key : String) (t : Table Json) : negatedAt key t.entries =
    match t.get? key with
    | none => .error (.missingField key)
    | some v => if v.isArray then .error (.unexpectedArray key) else ofJson v := by
  obtain ⟨l⟩ := t
  simp only [Table.get?]
  induction l with
  | nil => rw [negatedAt, Table.lookup]
  | cons e rest ih =>
    obtain ⟨k, v⟩ := e
    by_cases hk : key = k
    · cases v <;> simp [negatedAt, Table.lookup, hk, Json.isArray]
    · cases v <;> simp [negatedAt, Table.lookup, hk, ih]

theorem groupAt_eq_ok_iff {key : String} {t : Table Json} {cs : List Condition} :
    groupAt key t.entries = .ok cs ↔
      ∃ items, t.get? key = some (.array items) ∧ ofItems items = .ok cs := by
  rw [groupAt_eq]
  cases t.get? key with
  | none => simp
  | some v => cases v <;> simp [Json.toArray?]

theorem negatedAt_eq_ok_iff {key : String} {t : Table Json} {c : Condition} :
    negatedAt key t.entries = .ok c ↔ ∃ v, t.get? key = some v ∧ ofJson v = .ok c := by
  rw [negatedAt_eq]
  cases t.get? key with
  | none => simp
  | some v => cases v <;> simp [Json.isArray, ofJson]

/-- What the members of an object define, by the variant that their keys decide. -/
inductive Defines (t : Table Json) : Condition → Prop
  | group {q : Quantifier} {h : Heading} {items : List Json} {cs : List Condition}
      (hconnective : connectiveOf? t = some q.connective)
      (hheading : headingOf t q.connective.key = .ok h)
      (hget : t.get? q.connective.key = some (.array items)) (hitems : ofItems items = .ok cs) :
      Defines t (.group q h cs)
  | not {h : Heading} {v : Json} {c : Condition} (hconnective : connectiveOf? t = some .not)
      (hheading : headingOf t "not" = .ok h) (hget : t.get? "not" = some v)
      (hv : ofJson v = .ok c) : Defines t (.not h c)
  | reference {r : Reference} (hconnective : connectiveOf? t = none)
      (hcontains : t.contains "condition" = true) (hr : referenceOf t = .ok r) :
      Defines t (.reference r)
  | leaf {l : Leaf} (hconnective : connectiveOf? t = none)
      (hcontains : t.contains "condition" = false) (hl : leafOf t = .ok l) : Defines t (.leaf l)

theorem defines_of_group {q : Quantifier} {t : Table Json} {c : Condition}
    (hconnective : connectiveOf? t = some q.connective)
    (h : (do
      let heading ← headingOf t q.connective.key
      return Condition.group q heading (← groupAt q.connective.key t.entries)) = .ok c) :
    Defines t c := by
  obtain ⟨heading, hheading, h⟩ := bind_eq_ok_iff.1 h
  obtain ⟨cs, hcs, hc⟩ := bind_eq_ok_iff.1 h
  obtain ⟨items, hget, hitems⟩ := groupAt_eq_ok_iff.1 hcs
  cases hc
  exact .group hconnective hheading hget hitems

theorem defines_of_ofJson {t : Table Json} {c : Condition} (h : ofJson (.object t) = .ok c) :
    Defines t c := by
  unfold ofJson at h
  split at h
  · rename_i hconnective
    exact defines_of_group (q := .any) hconnective h
  · rename_i hconnective
    exact defines_of_group (q := .all) hconnective h
  · rename_i hconnective
    obtain ⟨heading, hheading, h⟩ := bind_eq_ok_iff.1 h
    obtain ⟨c', hc', hc⟩ := bind_eq_ok_iff.1 h
    obtain ⟨v, hget, hv⟩ := negatedAt_eq_ok_iff.1 hc'
    cases hc
    exact .not hconnective hheading hget hv
  · rename_i hconnective
    split at h
    · rename_i hcontains
      obtain ⟨r, hr, rfl⟩ := map_eq_ok_iff.1 h
      exact .reference hconnective hcontains hr
    · rename_i hcontains
      obtain ⟨l, hl, rfl⟩ := map_eq_ok_iff.1 h
      exact .leaf hconnective (by simpa using hcontains) hl

theorem Defines.ofJson {t : Table Json} {c : Condition} (h : Defines t c) :
    ofJson (.object t) = .ok c := by
  cases h with
  | @group q heading items cs hconnective hheading hget hitems =>
    have hcs := groupAt_eq_ok_iff.2 ⟨items, hget, hitems⟩
    have hread (f : List Condition → Condition) :
        (do return f (← groupAt q.connective.key t.entries)) = Except.ok (f cs) :=
      bind_eq_ok_iff.2 ⟨cs, hcs, rfl⟩
    cases q
    · rw [Condition.ofJson, hconnective]
      exact bind_eq_ok_iff.2 ⟨heading, hheading, hread _⟩
    · rw [Condition.ofJson, hconnective]
      exact bind_eq_ok_iff.2 ⟨heading, hheading, hread _⟩
  | @not heading v c hconnective hheading hget hv =>
    rw [Condition.ofJson, hconnective]
    have hc := negatedAt_eq_ok_iff.2 ⟨v, hget, hv⟩
    exact bind_eq_ok_iff.2 ⟨heading, hheading, bind_eq_ok_iff.2 ⟨c, hc, rfl⟩⟩
  | @reference r hconnective hcontains hr =>
    rw [Condition.ofJson, hconnective]
    simp only [hcontains, ↓reduceIte, hr, Except.map]
  | @leaf l hconnective hcontains hl =>
    rw [Condition.ofJson, hconnective]
    simp only [hcontains, Bool.false_eq_true, ↓reduceIte, hl, Except.map]

theorem ofJson_object_eq_ok_iff {t : Table Json} {c : Condition} :
    ofJson (.object t) = .ok c ↔ Defines t c :=
  ⟨defines_of_ofJson, Defines.ofJson⟩

theorem ofJson_eq_ok_iff {v : Json} {c : Condition} :
    ofJson v = .ok c ↔ ∃ t, v = .object t ∧ Defines t c := by
  constructor
  · intro h
    cases v with
    | object t => exact ⟨t, rfl, ofJson_object_eq_ok_iff.1 h⟩
    | _ => simp [ofJson] at h
  · rintro ⟨t, rfl, h⟩
    exact ofJson_object_eq_ok_iff.2 h

end Condition
end Verdict
