import Verdict.Json.Printer

/-!
# Values of settings

A setting is a scalar, a list, a table of settings as a section of a file is, or a gap: a
place that exists and holds nothing. Scalars turn into text and into truth values where those
are asked for.
-/
namespace Verdict

inductive Scalar where
  | bool (b : Bool)
  | integer (n : Int64)
  | floating (x : Floating)
  | text (s : String)
deriving DecidableEq

namespace Scalar

def floatingText : Floating → String
  | .finite x => String.ofList (Layout.plain.write x)
  | .infinite negative => if negative then "-inf" else "inf"
  | .nan => "NaN"

def toText : Scalar → String
  | bool b => if b then "true" else "false"
  | integer n => String.ofList (Json.integerText n.toInt)
  | floating x => floatingText x
  | text s => s

/-- Numbers other than zero are true, and so are a few words. -/
def toBool? : Scalar → Option Bool
  | bool b => some b
  | integer n => some (n != 0)
  | floating (.finite x) => some (x.value != 0)
  | floating _ => some true
  | text s =>
    let word := s.map Char.toLower
    if ["1", "true", "on", "yes"].contains word then some true
    else if ["0", "false", "off", "no"].contains word then some false
    else none

/-- A truth value, an integer or a number if the text names one. -/
def ofText (s : String) : Scalar :=
  let word := s.map Char.toLower
  if word = "true" then bool true
  else if word = "false" then bool false
  else
    match (integer? s.toList).bind int64? with
    | some n => integer n
    | none =>
      match Floating.read? s.toList with
      | some x => floating x
      | none => text s

end Scalar

inductive Setting where
  | gap
  | scalar (value : Scalar)
  | list (items : List Setting)
  | table (entries : Table Setting)

namespace Setting

mutual

/-- Are two settings the same? -/
def same : Setting → Setting → Bool
  | gap, gap => true
  | scalar v, scalar v' => v = v'
  | list l, list l' => sameItems l l'
  | table ⟨l⟩, table ⟨l'⟩ => sameEntries l l'
  | _, _ => false

def sameItems : List Setting → List Setting → Bool
  | [], [] => true
  | s :: l, s' :: l' => same s s' && sameItems l l'
  | _, _ => false

def sameEntries : List (String × Setting) → List (String × Setting) → Bool
  | [], [] => true
  | (key, s) :: l, (key', s') :: l' => key = key' && same s s' && sameEntries l l'
  | _, _ => false

end

mutual

theorem same_iff (s s' : Setting) : s.same s' = true ↔ s = s' := by
  cases s with
  | gap => cases s' <;> simp [same]
  | scalar v => cases s' <;> simp [same]
  | list l =>
    cases s' with
    | list l' => simp [same, sameItems_iff l l']
    | _ => simp [same]
  | table t =>
    obtain ⟨l⟩ := t
    cases s' with
    | table t' =>
      obtain ⟨l'⟩ := t'
      simp [same, sameEntries_iff l l']
    | _ => simp [same]

theorem sameItems_iff (l l' : List Setting) : sameItems l l' = true ↔ l = l' := by
  cases l with
  | nil => cases l' <;> simp [sameItems]
  | cons s l =>
    cases l' with
    | nil => simp [sameItems]
    | cons s' l' => simp [sameItems, same_iff s s', sameItems_iff l l']

theorem sameEntries_iff (l l' : List (String × Setting)) : sameEntries l l' = true ↔ l = l' := by
  cases l with
  | nil => cases l' <;> simp [sameEntries]
  | cons e l =>
    obtain ⟨key, s⟩ := e
    cases l' with
    | nil => simp [sameEntries]
    | cons e' l' =>
      simp [sameEntries, same_iff s e'.2, sameEntries_iff l l', Prod.ext_iff]

end

instance : DecidableEq Setting := fun s s' => decidable_of_iff _ (same_iff s s')

/-- The entries of a table; anything else has none. -/
def entries : Setting → Table Setting
  | table t => t
  | _ => .empty

/-- The items of a list; anything else has none. -/
def items : Setting → List Setting
  | list l => l
  | _ => []

mutual

/-- The setting of a later layer over that of an earlier one. Tables are joined key by
key; all else is displaced. -/
def onto (newer : Setting) : Setting → Setting
  | table ⟨l⟩ =>
    match newer with
    | table t => table ((Table.mk (entriesOnto t l)).addMissing t)
    | s => s
  | _ => newer

/-- The entries of an older table, with those of the same keys of a newer one over them. -/
def entriesOnto (t : Table Setting) : List (String × Setting) → List (String × Setting)
  | [] => []
  | (key, s) :: rest =>
    (key, ((t.get? key).map (·.onto s)).getD s) :: entriesOnto t rest

end

theorem get?_entriesOnto (t : Table Setting) (l : List (String × Setting)) (key : String) :
    (Table.mk (entriesOnto t l)).get? key =
      ((Table.mk l).get? key).map fun s => ((t.get? key).map (·.onto s)).getD s := by
  induction l with
  | nil => rfl
  | cons e rest ih =>
    have hrest (l : List (String × Setting)) (s : Setting) : (Table.mk ((e.1, s) :: l)).get? key =
        if key = e.1 then some s else (Table.mk l).get? key := rfl
    rw [entriesOnto, hrest, hrest, ih]
    by_cases h : key = e.1
    · rw [if_pos h, if_pos h, h]
      rfl
    · rw [if_neg h, if_neg h]

/-- What two tables have under a key is joined, and what one has alone stays. -/
theorem get?_onto (t t' : Table Setting) (key : String) :
    ((table t').onto (table t)).entries.get? key =
      ((t.get? key).map fun s => ((t'.get? key).map (·.onto s)).getD s).or (t'.get? key) := by
  obtain ⟨l⟩ := t
  rw [onto, entries, Table.get?_addMissing, get?_entriesOnto]

mutual

def ofJson : Json → Setting
  | .null => .gap
  | .bool b => .scalar (.bool b)
  | .number n =>
    match n.toInt64? with
    | some n => .scalar (.integer n)
    | none => .scalar (.floating (.finite n.toDouble))
  | .string s => .scalar (.text s)
  | .array items => .list (ofItems items)
  | .object ⟨members⟩ => .table ⟨ofMembers members⟩

def ofItems : List Json → List Setting
  | [] => []
  | v :: rest => ofJson v :: ofItems rest

def ofMembers : List (String × Json) → List (String × Setting)
  | [] => []
  | (key, v) :: rest => (key, ofJson v) :: ofMembers rest

end

end Setting
end Verdict
