import Verdict.Settings.Reader.Value
import Verdict.Text.Split

/-!
# Paths into settings

A path names a setting by a key and by steps from there: to a key of a table, as in `a.b`, or
to a place in a list, as in `a[0]`. Setting something at a path makes what is missing on the
way.
-/
namespace Verdict.Settings

/-- A place below zero counts from the end of the list. -/
inductive Step where
  | key (name : String)
  | place (i : Int64)
deriving DecidableEq

structure Path where
  root : String
  steps : List Step := []
deriving DecidableEq

def isSpace (c : Char) : Bool := c = ' ' || c = '\t'

def isKeyChar (c : Char) : Bool := c.isAlphanum || c = '_' || c = '-'

def isKey (cs : List Char) : Bool := !cs.isEmpty && cs.all isKeyChar

namespace Path

/-- The place between brackets, read after the opening one. -/
def place? (cs : List Char) : Option Int64 :=
  let word := cs.dropWhile isSpace
  let negative := word.head? == some '-'
  let body := if negative then word.drop 1 else word
  if (body.dropWhile Char.isDigit).dropWhile isSpace = [']'] then
    (digits? (body.takeWhile Char.isDigit)).bind fun n => int64? (signed negative n)
  else none

/-- A key and the places in brackets after it. -/
def keyAndPlaces? (cs : List Char) : Option (String × List Step) :=
  match Text.split (· = '[') cs with
  | key :: places =>
    if isKey key then
      (places.mapM place?).map fun l => (String.ofList key, l.map .place)
    else none
  | [] => none

def read? (cs : List Char) : Option Path := do
  match ← (Text.split (· = '.') cs).mapM keyAndPlaces? with
  | (root, places) :: rest =>
    some ⟨root, places ++ rest.flatMap fun (key, places) => .key key :: places⟩
  | [] => none

/-- A text that is no path is one key. -/
def ofText (s : String) : Path := (read? s.toList).getD ⟨s, []⟩

end Path

/-- The list with gaps as far as a place, and that place counted from the front. -/
def reach (i : Int64) (l : List Setting) : List Setting × Nat :=
  let n := i.toInt.natAbs
  if 0 ≤ i.toInt then (l ++ List.replicate (n + 1 - l.length) .gap, n)
  else if n ≤ l.length then (l, l.length - n)
  else (List.replicate (n - l.length) .gap ++ l, 0)

/-- Puts a setting over what is some steps from another; what is no table or no list on the
way becomes one. -/
def setFrom (v : Setting) : List Step → Setting → Setting
  | [], s => v.onto s
  | .key name :: steps, s =>
    let t := s.entries
    .table (t.insert name (setFrom v steps ((t.get? name).getD .gap)))
  | .place i :: steps, s =>
    let (l, n) := reach i s.items
    .list (l.modify n (setFrom v steps))

def setAt (v : Setting) (path : Path) (t : Table Setting) : Table Setting :=
  t.insert path.root (setFrom v path.steps ((t.get? path.root).getD .gap))

end Verdict.Settings
