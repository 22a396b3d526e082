import Verdict.Json.Token

/-!
# Drafts of JSON texts

A draft is the tree of a text as far as the text can be read: where it breaks off, the last
branch is `broken`, and everything before it is in place and in order. Whoever walks a draft
from left to right meets the faults of the text in their order.
-/
namespace Verdict.Json

inductive Draft where
  | null
  | bool (b : Bool)
  | number (n : Option Number)
  | string (s : Option String)
  | array (items : List Draft)
  | object (members : List (Option String × Draft))
  | broken

namespace Draft

/-- An open array or object around the place that is being read. -/
inductive Frame where
  | items (reversed : List Draft)
  | members (reversed : List (Option String × Draft))
  | member (reversed : List (Option String × Draft)) (key : Option String)

inductive Expecting where
  | value | firstValue | key | firstKey | colon | separator

inductive State where
  | reading (expecting : Expecting) (frames : List Frame)
  | finished (root : Draft) (trailing : Bool)

/-- The draft of a text that breaks off inside the frames. -/
def breakOff (d : Draft) : List Frame → Draft
  | [] => d
  | .items l :: frames => breakOff (array (l.reverse ++ [d])) frames
  | .members l :: frames => breakOff (object (l.reverse ++ [(none, d)])) frames
  | .member l k :: frames => breakOff (object (l.reverse ++ [(k, d)])) frames

def State.stop (frames : List Frame) : State := .finished (breakOff broken frames) false

/-- Puts a whole value in its place. -/
def State.put (d : Draft) : List Frame → State
  | [] => .finished d false
  | .items l :: frames => .reading .separator (.items (d :: l) :: frames)
  | .member l k :: frames => .reading .separator (.members ((k, d) :: l) :: frames)
  | .members l :: frames => .stop (.members l :: frames)

def State.startValue (frames : List Frame) : Token → State
  | .leftBracket => .reading .firstValue (.items [] :: frames)
  | .leftBrace => .reading .firstKey (.members [] :: frames)
  | .null => .put Draft.null frames
  | .bool b => .put (Draft.bool b) frames
  | .number n => .put (Draft.number n) frames
  | .string s => .put (Draft.string s) frames
  | _ => .stop frames

def State.step : State → Token → State
  | .finished d _, _ => .finished d true
  | .reading .value frames, t => .startValue frames t
  | .reading .firstValue (.items [] :: frames), .rightBracket => .put (array []) frames
  | .reading .firstValue frames, t => .startValue frames t
  | .reading .firstKey (.members [] :: frames), .rightBrace => .put (object []) frames
  | .reading .firstKey (.members l :: frames), .string s => .reading .colon (.member l s :: frames)
  | .reading .key (.members l :: frames), .string s => .reading .colon (.member l s :: frames)
  | .reading .colon frames, .colon => .reading .value frames
  | .reading .separator (.items l :: frames), .comma => .reading .value (.items l :: frames)
  | .reading .separator (.items l :: frames), .rightBracket => .put (array l.reverse) frames
  | .reading .separator (.members l :: frames), .comma => .reading .key (.members l :: frames)
  | .reading .separator (.members l :: frames), .rightBrace => .put (object l.reverse) frames
  | .reading _ frames, _ => .stop frames

def State.close : State → Draft × Bool
  | .finished d trailing => (d, trailing)
  | .reading _ frames => (breakOff broken frames, false)

/-- The draft of a text, and whether anything follows it. -/
def ofText (s : String) : Draft × Bool :=
  ((Token.tokens s.toList).foldl State.step (.reading .value [])).close

/-- How many more arrays and objects may open around a value; `none` is any number. -/
abbrev Nesting := Option Nat

def Nesting.deeper? : Nesting → Option Nesting
  | none => some none
  | some 0 => none
  | some (n + 1) => some (some n)

mutual

/-- The value of a draft that does not break off, has a value in each place, and nests
no deeper than allowed. -/
def value? : Draft → Nesting → Option Json
  | null, _ => some .null
  | bool b, _ => some (.bool b)
  | number n, _ => n.map .number
  | string s, _ => s.map .string
  | array items, nesting => do
    let inner ← nesting.deeper?
    (itemValues? items inner).map .array
  | object members, nesting => do
    let inner ← nesting.deeper?
    (memberValues? members inner).map fun l => .object (.ofList l)
  | broken, _ => none

def itemValues? : List Draft → Nesting → Option (List Json)
  | [], _ => some []
  | d :: rest, nesting => do
    let v ← value? d nesting
    (itemValues? rest nesting).map (v :: ·)

def memberValues? : List (Option String × Draft) → Nesting → Option (List (String × Json))
  | [], _ => some []
  | (key, d) :: rest, nesting => do
    let k ← key
    let v ← value? d nesting
    (memberValues? rest nesting).map ((k, v) :: ·)

end

mutual

/-- Does the draft not break off? -/
def isWhole : Draft → Bool
  | array items => areWhole items
  | object members => membersWhole members
  | broken => false
  | _ => true

def areWhole : List Draft → Bool
  | [] => true
  | d :: rest => isWhole d && areWhole rest

def membersWhole : List (Option String × Draft) → Bool
  | [] => true
  | (_, d) :: rest => isWhole d && membersWhole rest

end

mutual

/-- The draft of a value, its members in the order of their keys. -/
def ofJson : Json → Draft
  | .null => null
  | .bool b => bool b
  | .number n => number (some n)
  | .string s => string (some s)
  | .array items => array (ofItems items)
  | .object ⟨members⟩ => object (ofMembers members)

def ofItems : List Json → List Draft
  | [] => []
  | v :: rest => ofJson v :: ofItems rest

def ofMembers : List (String × Json) → List (Option String × Draft)
  | [] => []
  | (k, v) :: rest => (some k, ofJson v) :: ofMembers rest

end

end Draft

/-- The nesting that a text may have. -/
def textNesting : Draft.Nesting := some 127

/-- The value that a text writes within a nesting; nothing but spaces may follow it. -/
def ofTextWithin? (nesting : Draft.Nesting) (s : String) : Option Json :=
  match Draft.ofText s with
  | (d, false) => d.value? nesting
  | (_, true) => none

def ofText? (s : String) : Option Json := ofTextWithin? textNesting s

end Verdict.Json
