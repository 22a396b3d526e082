/-!
# Tables keyed by strings

A table lists its entries by increasing key, one entry a key. It serves as the
member list of a JSON object and as every registry of the library.
-/
namespace Verdict

structure Table (α : Type) where
  entries : List (String × α) := []

namespace Table
variable {α β : Type}

def empty : Table α := {}

/-- The value of the first entry with key `k`. -/
def lookup (k : String) : List (String × α) → Option α
  | [] => none
  | (k', v) :: rest => if k = k' then some v else lookup k rest

/-- Puts an entry before the first larger key, or in place of an equal one. -/
def place (k : String) (v : α) : List (String × α) → List (String × α)
  | [] => [(k, v)]
  | (k', v') :: rest =>
    if k = k' then (k, v) :: rest
    else if k < k' then (k, v) :: (k', v') :: rest
    else (k', v') :: place k v rest

def get? (t : Table α) (k : String) : Option α := lookup k t.entries

def contains (t : Table α) (k : String) : Bool := (t.get? k).isSome

def insert (t : Table α) (k : String) (v : α) : Table α := ⟨place k v t.entries⟩

/-- Keeps the entries whose key satisfies `p`. -/
def retain (t : Table α) (p : String → Bool) : Table α := ⟨t.entries.filter fun e => p e.1⟩

def erase (t : Table α) (k : String) : Table α := t.retain (· != k)

def keys (t : Table α) : List String := t.entries.map (·.1)

def size (t : Table α) : Nat := t.entries.length

def isEmpty (t : Table α) : Bool := t.entries.isEmpty

/-- Inserts the pairs in order, so the last value of a repeated key stays. -/
def insertAll (t : Table α) (l : List (String × α)) : Table α :=
  l.foldl (fun t e => t.insert e.1 e.2) t

def ofList (l : List (String × α)) : Table α := empty.insertAll l

/-- Adds the entries of `t'` whose keys are not yet present. -/
def addMissing (t t' : Table α) : Table α :=
  t'.entries.foldl (fun t e => if t.contains e.1 then t else t.insert e.1 e.2) t

def Sorted (t : Table α) : Prop := t.entries.Pairwise (·.1 < ·.1)

theorem lookup_place_self (k : String) (v : α) (l : List (String × α)) :
    lookup k (place k v l) = some v := by
  induction l with
  | nil => simp [place, lookup]
  | cons e rest ih =>
    by_cases h : k = e.1
    · simp [place, lookup, h]
    · by_cases h' : k < e.1 <;> simp [place, lookup, h, h', ih]

theorem lookup_place_of_ne {k k' : String} (h : k ≠ k') (v : α) (l : List (String × α)) :
    lookup k (place k' v l) = lookup k l := by
  induction l with
  | nil => simp [place, lookup, h]
  | cons e rest ih =>
    by_cases h₁ : k' = e.1
    · simp [place, lookup, ← h₁, h]
    · by_cases h₂ : k' < e.1 <;> simp [place, lookup, h₁, h₂, h, ih]

theorem mem_map_of_lookup {k : String} {v : α} {l : List (String × α)}
    (h : lookup k l = some v) : k ∈ l.map (·.1) := by
  induction l with
  | nil => cases h
  | cons e rest ih =>
    rw [List.map_cons]
    by_cases hk : k = e.1
    · exact hk ▸ List.mem_cons_self
    · rw [lookup, if_neg hk] at h
      exact List.mem_cons_of_mem _ (ih h)

theorem length_le_length_place (k : String) (v : α) (l : List (String × α)) :
    l.length ≤ (place k v l).length := by
  induction l with
  | nil => exact Nat.zero_le _
  | cons e rest ih =>
    simp only [place]
    split
    · exact Nat.le_refl _
    · split
      · exact Nat.le_succ _
      · exact Nat.succ_le_succ ih

theorem lookup_filter (p : String → Bool) (k : String) (l : List (String × α)) :
    lookup k (l.filter fun e => p e.1) = if p k then lookup k l else none := by
  induction l with
  | nil => simp [lookup]
  | cons e rest ih =>
    by_cases h : k = e.1
    · subst h
      by_cases hp : p e.1 <;> simp [lookup, hp, ih]
    · by_cases hp : p e.1 <;> simp [lookup, hp, h, ih]

theorem mem_keys_of_get? {t : Table α} {k : String} {v : α} (h : t.get? k = some v) :
    k ∈ t.keys := mem_map_of_lookup h

theorem get?_insert_self (t : Table α) (k : String) (v : α) : (t.insert k v).get? k = some v :=
  lookup_place_self k v t.entries

theorem get?_insert_of_ne (t : Table α) {k k' : String} (h : k ≠ k') (v : α) :
    (t.insert k' v).get? k = t.get? k :=
  lookup_place_of_ne h v t.entries

theorem get?_insert (t : Table α) (k k' : String) (v : α) :
    (t.insert k' v).get? k = if k = k' then some v else t.get? k := by
  by_cases h : k = k'
  · rw [if_pos h, h, get?_insert_self]
  · rw [if_neg h, get?_insert_of_ne t h]

theorem get?_insert_eq_some_iff {t : Table α} {k k' : String} {v v' : α} :
    (t.insert k' v').get? k = some v ↔ k = k' ∧ v = v' ∨ k ≠ k' ∧ t.get? k = some v := by
  rw [get?_insert]
  by_cases h : k = k'
  · rw [if_pos h, Option.some_inj]
    exact ⟨fun hv => .inl ⟨h, hv.symm⟩, fun hv => (hv.resolve_right fun hv => hv.1 h).2.symm⟩
  · rw [if_neg h]
    exact ⟨fun hv => .inr ⟨h, hv⟩, fun hv => (hv.resolve_left fun hv => h hv.1).2⟩

/-- An entry under a new key leaves the others as they are. -/
theorem get?_insert_of_new {t : Table α} {k k' : String} {v : α} (hnew : t.get? k' = none)
    (h : t.get? k = some v) (v' : α) : (t.insert k' v').get? k = some v := by
  have hne : k ≠ k' := by
    rintro rfl
    cases h.symm.trans hnew
  exact (get?_insert_of_ne t hne v').trans h

theorem size_le_size_insert (t : Table α) (k : String) (v : α) : t.size ≤ (t.insert k v).size :=
  length_le_length_place k v t.entries

theorem get?_retain (t : Table α) (p : String → Bool) (k : String) :
    (t.retain p).get? k = if p k then t.get? k else none :=
  lookup_filter p k t.entries

theorem get?_retain_eq_some_iff {t : Table α} {p : String → Bool} {k : String} {v : α} :
    (t.retain p).get? k = some v ↔ p k ∧ t.get? k = some v := by
  rw [get?_retain]
  cases p k <;> simp

theorem get?_erase (t : Table α) (k k' : String) :
    (t.erase k').get? k = if k = k' then none else t.get? k := by
  by_cases h : k = k' <;> simp [erase, get?_retain, h]

/-- What is added stands only where nothing stood before. -/
theorem get?_addMissing (t t' : Table α) (k : String) :
    (t.addMissing t').get? k = (t.get? k).or (t'.get? k) := by
  obtain ⟨l⟩ := t'
  unfold addMissing
  induction l generalizing t with
  | nil => simp [get?, lookup]
  | cons e rest ih =>
    rw [List.foldl_cons, ih]
    have hrest : (⟨e :: rest⟩ : Table α).get? k =
        if k = e.1 then some e.2 else (⟨rest⟩ : Table α).get? k := rfl
    rw [hrest]
    by_cases hcontains : t.contains e.1 = true
    · rw [if_pos hcontains]
      by_cases hk : k = e.1
      · obtain ⟨v, hv⟩ := Option.isSome_iff_exists.1 hcontains
        rw [hk, hv, Option.some_or, Option.some_or]
      · rw [if_neg hk]
    · rw [if_neg hcontains, get?_insert]
      by_cases hk : k = e.1
      · have hnone : t.get? e.1 = none := by simpa [contains] using hcontains
        rw [if_pos hk, if_pos hk, hk, hnone, Option.some_or, Option.none_or]
      · rw [if_neg hk, if_neg hk]

end Table
end Verdict
