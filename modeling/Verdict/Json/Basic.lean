import Verdict.Number.Literal
import Verdict.Table

/-!
# JSON values

Numbers keep the kind they were written in: an integer of 64 bits or a double.
Equality of values tells the two kinds apart and compares doubles as numbers.
-/
namespace Verdict

/-- A number of a JSON text: an integer from `-2 ^ 63` below `2 ^ 64`, or a finite double. -/
inductive Number where
  | integer (n : Int) (bounds : -0x8000000000000000 ≤ n ∧ n < 0x10000000000000000)
  | double (x : Double)
deriving DecidableEq

namespace Number

def ofInt? (n : Int) : Option Number :=
  if h : -0x8000000000000000 ≤ n ∧ n < 0x10000000000000000 then some (integer n h) else none

def ofInt64 (n : Int64) : Number :=
  integer n.toInt ⟨n.le_toInt, Int.lt_trans n.toInt_lt (by decide)⟩

/-- A count, which stays at the largest integer once it gets there. -/
def ofNat (n : Nat) : Number :=
  integer (min n 0xffffffffffffffff : Nat) (by omega)

def toDouble : Number → Double
  | integer n h => .ofInt n (by omega)
  | double x => x

def toInt64? : Number → Option Int64
  | integer n _ => int64? n
  | double _ => none

def toNat? : Number → Option Nat
  | integer n _ => if 0 ≤ n then some n.toNat else none
  | double _ => none

instance : BEq Number where
  beq
    | integer m _, integer n _ => m == n
    | double x, double y => x == y
    | _, _ => false

/-- A numeral without point and exponent is an integer if 64 bits hold it, but `-0` is a double. -/
def ofWhole? (negative : Bool) (n : Nat) : Option Number :=
  if negative && n == 0 then some (double (.zero true))
  else
    match ofInt? (signed negative n) with
    | some m => some m
    | none => (Decimal.toDouble? ⟨negative, n, 0⟩).map double

end Number

inductive Json where
  | null
  | bool (b : Bool)
  | number (n : Number)
  | string (s : String)
  | array (items : List Json)
  | object (members : Table Json)

instance : Inhabited Json := ⟨.null⟩

namespace Json

/-- The six kinds of value. -/
inductive Kind where
  | null | boolean | number | string | array | object
deriving DecidableEq

def Kind.name : Kind → String
  | null => "null"
  | boolean => "boolean"
  | number => "number"
  | string => "string"
  | array => "array"
  | object => "object"

def kind : Json → Kind
  | null => .null
  | bool _ => .boolean
  | number _ => .number
  | string _ => .string
  | array _ => .array
  | object _ => .object

def ofInt64 (n : Int64) : Json := number (.ofInt64 n)

def ofNat (n : Nat) : Json := number (.ofNat n)

def ofOption (f : α → Json) : Option α → Json
  | some a => f a
  | none => null

def isNull : Json → Bool
  | null => true
  | _ => false

def isArray : Json → Bool
  | array _ => true
  | _ => false

def toString? : Json → Option String
  | string s => some s
  | _ => none

def toArray? : Json → Option (List Json)
  | array items => some items
  | _ => none

def toObject? : Json → Option (Table Json)
  | object members => some members
  | _ => none

def toInt64? : Json → Option Int64
  | number n => n.toInt64?
  | _ => none

def toNat? : Json → Option Nat
  | number n => n.toNat?
  | _ => none

/-- The member of an object with that key. -/
def member? (v : Json) (key : String) : Option Json := v.toObject?.bind (·.get? key)

mutual

def equal : Json → Json → Bool
  | null, null => true
  | bool a, bool b => a == b
  | number m, number n => m == n
  | string s, string t => s == t
  | array l, array l' => equalItems l l'
  | object t, object t' => equalMembers t.entries t'.entries
  | _, _ => false

def equalItems : List Json → List Json → Bool
  | [], [] => true
  | v :: l, v' :: l' => equal v v' && equalItems l l'
  | _, _ => false

def equalMembers : List (String × Json) → List (String × Json) → Bool
  | [], [] => true
  | (k, v) :: l, (k', v') :: l' => k == k' && equal v v' && equalMembers l l'
  | _, _ => false

end

instance : BEq Json := ⟨equal⟩

instance : BEq (Table Json) := ⟨fun t t' => equalMembers t.entries t'.entries⟩

end Json
end Verdict
