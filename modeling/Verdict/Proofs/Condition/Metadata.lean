import Verdict.Proofs.Condition.Inheritance

/-!
# Metadata along references

Taking over metadata is a merge in which the left side counts. It comes to the same whether a
condition takes over the metadata of references one by one, or a reference takes over that of the
next one before.
-/
namespace Verdict

namespace Table
variable {α : Type}

theorem place_comm_of_lt {k k' : String} (h : k < k') (v v' : α) (l : List (String × α)) :
    place k v (place k' v' l) = place k' v' (place k v l) := by
  have hne : k ≠ k' := fun he => String.lt_irrefl k' (he ▸ h)
  have hle : ¬ k' < k := String.lt_asymm h
  induction l with
  | nil => simp [place, h, hne, hne.symm, hle]
  | cons e rest ih =>
    obtain ⟨key, value⟩ := e
    by_cases hkey' : k' = key
    · subst hkey'
      simp [place, h, hne, hne.symm, hle]
    by_cases hlt' : k' < key
    · have hlt : k < key := String.lt_trans h hlt'
      have hnekey : k ≠ key := fun he => String.lt_irrefl key (he ▸ hlt)
      simp [place, h, hne, hne.symm, hle, hkey', hlt', hlt, hnekey]
    -- the entry stays in front of the larger key
    by_cases hkey : k = key
    · subst hkey
      simp [place, hne.symm, hle]
    by_cases hlt : k < key
    · simp [place, hne.symm, hle, hkey, hkey', hlt, hlt']
    · simp [place, hkey, hkey', hlt, hlt', ih]

theorem place_comm {k k' : String} (h : k ≠ k') (v v' : α) (l : List (String × α)) :
    place k v (place k' v' l) = place k' v' (place k v l) := by
  by_cases hlt : k < k'
  · exact place_comm_of_lt hlt v v' l
  · have hgt : k' < k := by
      refine String.not_le.1 fun hle => h ?_
      exact String.le_antisymm hle (String.not_lt.1 hlt)
    exact (place_comm_of_lt hgt v' v l).symm

/-- Adds an entry, unless there is one of its key. -/
def addNew (t : Table α) (e : String × α) : Table α :=
  if t.contains e.1 then t else t.insert e.1 e.2

theorem addMissing_eq_foldl (t t' : Table α) : t.addMissing t' = t'.entries.foldl addNew t := rfl

theorem contains_addNew {e : String × α} {key : String} (h : key ≠ e.1) (t : Table α) :
    (t.addNew e).contains key = t.contains key := by
  unfold addNew
  split
  · rfl
  · rw [contains, get?_insert_of_ne _ h, contains]

theorem addNew_comm {e e' : String × α} (h : e.1 ≠ e'.1) (t : Table α) :
    (t.addNew e).addNew e' = (t.addNew e').addNew e := by
  rw [addNew, contains_addNew h.symm, addNew.eq_1 (t.addNew e'), contains_addNew h]
  unfold addNew
  split <;> split
  · rfl
  · rfl
  · rfl
  · exact congrArg Table.mk (place_comm h.symm _ _ _)

theorem foldl_addNew_comm {e : String × α} {l : List (String × α)} (h : lookup e.1 l = none)
    (t : Table α) : l.foldl addNew (t.addNew e) = (l.foldl addNew t).addNew e := by
  induction l generalizing t with
  | nil => rfl
  | cons e' rest ih =>
    have hne : e.1 ≠ e'.1 := fun he => by simp [lookup, he] at h
    rw [lookup, if_neg hne] at h
    rw [List.foldl_cons, addNew_comm hne, ih h, List.foldl_cons]

/-- A new entry comes to the same wherever it stands among those that are added. -/
theorem foldl_addNew_place {k : String} {l : List (String × α)} (h : lookup k l = none) (v : α)
    (t : Table α) : (place k v l).foldl addNew t = (l.foldl addNew t).addNew (k, v) := by
  induction l generalizing t with
  | nil => rfl
  | cons e rest ih =>
    have hne : k ≠ e.1 := fun he => by simp [lookup, he] at h
    rw [place, if_neg hne]
    split
    · exact foldl_addNew_comm h t
    · rw [lookup, if_neg hne] at h
      rw [List.foldl_cons, ih h, List.foldl_cons]

theorem addMissing_addNew (t t' : Table α) (e : String × α) :
    t.addMissing (t'.addNew e) = (t.addMissing t').addNew e := by
  by_cases h : t'.contains e.1
  · have hcontains : (t.addMissing t').contains e.1 := by
      rw [contains, get?_addMissing, Option.isSome_or, ← contains, ← contains, h, Bool.or_true]
    rw [addNew, if_pos h, addNew, if_pos hcontains]
  · rw [addNew, if_neg h]
    exact foldl_addNew_place (Option.not_isSome_iff_eq_none.1 h) e.2 t

theorem addMissing_assoc (t t' t'' : Table α) :
    t.addMissing (t'.addMissing t'') = (t.addMissing t').addMissing t'' := by
  obtain ⟨l⟩ := t''
  simp only [addMissing_eq_foldl t', addMissing_eq_foldl (t.addMissing t')]
  induction l generalizing t' with
  | nil => rfl
  | cons e rest ih => rw [List.foldl_cons, ih, addMissing_addNew, List.foldl_cons]

theorem addMissing_eq_self {t t' : Table α} (h : ∀ e ∈ t'.entries, t.contains e.1) :
    t.addMissing t' = t := by
  obtain ⟨l⟩ := t'
  rw [addMissing_eq_foldl]
  induction l with
  | nil => rfl
  | cons e rest ih =>
    rw [List.foldl_cons, addNew, if_pos (h e List.mem_cons_self)]
    exact ih fun e' he' => h e' (List.mem_cons_of_mem _ he')

theorem addMissing_addMissing_self (t t' : Table α) :
    (t.addMissing t').addMissing t' = t.addMissing t' := by
  refine addMissing_eq_self fun e he => ?_
  rw [contains, get?_addMissing, Option.isSome_or]
  exact Bool.or_eq_true_iff.2 (.inr (isSome_lookup_of_mem he))

end Table

namespace Condition
variable {t : Condition} {r : Reference} {key : String}

def extra : Condition → Table Json
  | group _ h _ => h.extra
  | not h _ => h.extra
  | reference r => r.extra
  | leaf l => l.extra

/-- What a reference has after it took over the metadata of another one. -/
def Reference.inherit (r r' : Reference) : Reference where
  condition := r.condition
  name := r.name.or r'.name
  priority := r.priority.or r'.priority
  extra := r.extra.addMissing r'.extra

theorem inherit_inherit_self (t : Condition) (r : Reference) :
    (t.inherit r).inherit r = t.inherit r := by
  cases t <;>
    simp [inherit, Option.or_assoc, Option.or_self, Table.addMissing_addMissing_self]

theorem inherit_inherit (t : Condition) (r r' : Reference) :
    (t.inherit r).inherit r' = t.inherit (r.inherit r') := by
  cases t <;> simp [inherit, Reference.inherit, Option.or_assoc, Table.addMissing_assoc]

/-! What a condition shows that took over the metadata of a reference. -/

theorem connective?_inherit (t : Condition) (r : Reference) :
    (t.inherit r).connective? = t.connective? := by
  cases t <;> rfl

theorem isReference_inherit (t : Condition) (r : Reference) :
    (t.inherit r).isReference = t.isReference := by
  cases t <;> rfl

theorem name?_inherit (t : Condition) (r : Reference) :
    (t.inherit r).name? = t.name?.or r.name := by
  cases t <;> rfl

theorem priority?_inherit (t : Condition) (r : Reference) :
    (t.inherit r).priority? =
      if t.connective?.isSome then t.priority? else t.priority?.or r.priority := by
  cases t <;> rfl

theorem get?_extra_inherit (t : Condition) (r : Reference) (key : String) :
    (t.inherit r).extra.get? key = (t.extra.get? key).or (r.extra.get? key) := by
  cases t <;> exact Table.get?_addMissing _ _ _

/-- What a condition has of its own stays. -/
theorem shown_inherit (t : Condition) (r : Reference) :
    (∀ name, t.name? = some name → (t.inherit r).name? = some name) ∧
    (∀ priority, t.priority? = some priority → (t.inherit r).priority? = some priority) ∧
    ∀ key v, t.extra.get? key = some v → (t.inherit r).extra.get? key = some v := by
  refine ⟨fun name h => ?_, fun priority h => ?_, fun key v h => ?_⟩
  · rw [name?_inherit, h, Option.some_or]
  · rw [priority?_inherit, h, Option.some_or, ite_self]
  · rw [get?_extra_inherit, h, Option.some_or]

/-- The condition is `target` with the metadata of references, of which the first that has some
counts where the target has none. What is left of a reference has one more member. -/
structure Merged (target : Condition) (rs : List Reference) (c : Condition) : Prop where
  connective?_eq : c.connective? = target.connective?
  isReference_eq : c.isReference = target.isReference
  name?_eq : c.name? = target.name?.or (rs.findSome? (·.name))
  priority?_eq : target.connective? = none →
    c.priority? = target.priority?.or (rs.findSome? (·.priority))
  priority?_eq_self : target.connective? ≠ none → c.priority? = target.priority?
  get?_extra_eq (key : String) : (target.isReference → key ≠ "result") →
    c.extra.get? key = (target.extra.get? key).or (rs.findSome? (·.extra.get? key))

end Condition
end Verdict
