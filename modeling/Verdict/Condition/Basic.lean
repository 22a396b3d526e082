import Verdict.Json.Basic

/-!
# Condition trees

A condition compares a fact with a value, refers to a condition by name, or joins
conditions. Members of a definition that mean nothing here are kept as `extra`.
-/
namespace Verdict

/-- The two ways to join a list of conditions. -/
inductive Quantifier where
  | all | any
deriving DecidableEq

/-- The verdict of a group without conditions; the opposite verdict of one decides the group. -/
def Quantifier.neutral : Quantifier → Bool
  | all => true
  | any => false

/-- The words that join conditions. -/
inductive Connective where
  | all | any | not
deriving DecidableEq

namespace Connective

def key : Connective → String
  | all => "all"
  | any => "any"
  | not => "not"

def ofKey? (s : String) : Option Connective :=
  if s = "all" then some all else if s = "any" then some any else if s = "not" then some not
  else none

end Connective

def Quantifier.connective : Quantifier → Connective
  | all => .all
  | any => .any

namespace Condition

/-- What a group or a negation has besides its conditions. -/
structure Heading where
  priority : Int64
  name : Option String
  extra : Table Json

structure Reference where
  condition : String
  name : Option String
  priority : Option Int64
  extra : Table Json

/-- What a comparison saw and decided. -/
structure Observation where
  fact : Json
  value : Json
  result : Bool

structure Leaf where
  fact : String
  operator : String
  value : Json
  params : Option Json
  path : Option String
  priority : Option Int64
  name : Option String
  extra : Table Json
  observation : Option Observation

end Condition

open Condition in
inductive Condition where
  | group (quantifier : Quantifier) (heading : Heading) (conditions : List Condition)
  | not (heading : Heading) (condition : Condition)
  | reference (reference : Reference)
  | leaf (leaf : Leaf)

namespace Condition

def connective? : Condition → Option Connective
  | group q _ _ => some q.connective
  | not _ _ => some .not
  | _ => none

def isReference : Condition → Bool
  | reference _ => true
  | _ => false

def priority? : Condition → Option Int64
  | group _ h _ => some h.priority
  | not h _ => some h.priority
  | reference r => r.priority
  | leaf l => l.priority

def name? : Condition → Option String
  | group _ h _ => h.name
  | not h _ => h.name
  | reference r => r.name
  | leaf l => l.name

def Leaf.ofComparison (fact operator : String) (value : Json) : Leaf where
  fact := fact
  operator := operator
  value := value
  params := none
  path := none
  priority := none
  name := none
  extra := .empty
  observation := none

def Leaf.record (l : Leaf) (o : Observation) : Leaf := { l with observation := some o }

def Leaf.clear (l : Leaf) : Leaf := { l with observation := none }

mutual

/-- Forgets what every comparison of the tree saw. -/
def clear : Condition → Condition
  | group q h cs => group q h (clearAll cs)
  | not h c => not h (clear c)
  | reference r => reference r
  | leaf l => leaf l.clear

def clearAll : List Condition → List Condition
  | [] => []
  | c :: cs => clear c :: clearAll cs

end

/-! Equality leaves out what comparisons saw. -/

def Heading.equal (h h' : Heading) : Bool :=
  h.priority == h'.priority && h.name == h'.name && h.extra == h'.extra

def Reference.equal (r r' : Reference) : Bool :=
  r.condition == r'.condition && r.name == r'.name && r.priority == r'.priority &&
    r.extra == r'.extra

def Leaf.equal (l l' : Leaf) : Bool :=
  l.fact == l'.fact && l.operator == l'.operator && l.value == l'.value &&
    l.params == l'.params && l.path == l'.path && l.priority == l'.priority &&
    l.name == l'.name && l.extra == l'.extra

mutual

def equal : Condition → Condition → Bool
  | group q h cs, group q' h' cs' => q == q' && h.equal h' && equalAll cs cs'
  | not h c, not h' c' => h.equal h' && equal c c'
  | reference r, reference r' => r.equal r'
  | leaf l, leaf l' => l.equal l'
  | _, _ => false

def equalAll : List Condition → List Condition → Bool
  | [], [] => true
  | c :: cs, c' :: cs' => equal c c' && equalAll cs cs'
  | _, _ => false

end

instance : BEq Condition := ⟨equal⟩

end Condition
end Verdict
