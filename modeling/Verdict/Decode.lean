import Verdict.Condition.Basic
import Verdict.Fault
import Verdict.Json.Draft

/-!
# Reading drafts as typed values

Readers walk a draft in order and report the first fault they meet: text that breaks off,
or a value of another shape. A record is read from an object, in which unknown members are
passed over, or from an array of its fields in their order.
-/
namespace Verdict
open Json (Draft)

/-- How deep values may nest, and what is wrong with an array with too many items. -/
structure Origin where
  nesting : Draft.Nesting
  surplus : Nat → ReadFault

namespace Origin

def text : Origin := ⟨Json.textNesting, fun _ => .malformed⟩

def value : Origin := ⟨none, fun n => .shape (.tooLong n)⟩

def deeper (o : Origin) : Except ReadFault Origin :=
  match o.nesting.deeper? with
  | some nesting => .ok { o with nesting }
  | none => .error .malformed

end Origin

/-- A reader of drafts. -/
abbrev Reader (α : Type) := Origin → Draft → Except ReadFault α

namespace Reader
variable {α ρ : Type}

/-- The fault of a draft that is not what is expected. -/
def mismatch (d : Draft) (expected : Expected) : ReadFault :=
  let found := fun f => ReadFault.shape (.wrongType f expected)
  match d with
  | .null => found .null
  | .bool b => found (.boolean b)
  | .number (some n) => found (.number n)
  | .string (some s) => found (.string s)
  | .array _ => found .sequence
  | .object _ => found .map
  | .number none | .string none | .broken => .malformed

def string : Reader String
  | _, .string (some s) => .ok s
  | _, d => .error (mismatch d .string)

def bool : Reader Bool
  | _, .bool b => .ok b
  | _, d => .error (mismatch d .boolean)

def int64 : Reader Int64
  | _, .number (some (.integer n h)) =>
    match int64? n with
    | some i => .ok i
    | none => .error (.shape (.outOfRange (.integer n h)))
  | _, d => .error (mismatch d .int64)

/-- Null is nothing. -/
def optional (read : Reader α) : Reader (Option α)
  | _, .null => .ok none
  | o, d => (read o d).map some

def json : Reader Json := fun o d =>
  match d.value? o.nesting with
  | some v => .ok v
  | none => .error .malformed

def table : Reader (Table Json) := fun o d =>
  match d with
  | .object _ => do
    match ← json o d with
    | .object members => .ok members
    | _ => .error .malformed
  | d => .error (mismatch d .map)

/-- A field of a record that is being read into `ρ`. -/
structure Field (ρ : Type) where
  name : String
  read : Origin → Draft → ρ → Except ReadFault ρ

def Field.make (name : String) (read : Reader α) (set : α → ρ → ρ) : Field ρ :=
  ⟨name, fun o d r => (read o d).map (set · r)⟩

/-- Reads the members in their order; `seen` are the fields met before. -/
def members (fields : List (Field ρ)) (o : Origin) :
    List String → ρ → List (Option String × Draft) → Except ReadFault ρ
  | _, r, [] => .ok r
  | _, _, (none, _) :: _ => .error .malformed
  | seen, r, (some key, d) :: rest =>
    match fields.find? (·.name == key) with
    | some field =>
      if seen.contains key then .error (.shape (.duplicateField key))
      else do members fields o (key :: seen) (← field.read o d r) rest
    | none => if d.isWhole then members fields o seen r rest else .error .malformed

/-- Reads items as the fields in their order, and gives what is left over. -/
def items (o : Origin) : List (Field ρ) → ρ → List Draft → Except ReadFault (ρ × List Draft)
  | field :: fields, r, d :: rest => do items o fields (← field.read o d r) rest
  | _, r, rest => .ok (r, rest)

/-- A record: its fields, what it holds before any is read, and what it must hold after. -/
structure Shape (ρ α : Type) where
  name : String
  fields : List (Field ρ)
  initial : ρ
  /-- The argument is the fault of a missing field, given its name and place. -/
  finish : (String → Nat → ShapeFault) → ρ → Except ShapeFault α

def record (shape : Shape ρ α) : Reader α := fun o d =>
  match d with
  | .object ms => do
    let r ← members shape.fields (← o.deeper) [] shape.initial ms
    (shape.finish (fun name _ => .missingField name) r).mapError .shape
  | .array ds => do
    let (r, rest) ← items (← o.deeper) shape.fields shape.initial ds
    let tooShort := fun (_ : String) place => .tooShort place shape.name shape.fields.length
    let a ← (shape.finish tooShort r).mapError .shape
    if rest.isEmpty then return a else throw (o.surplus ds.length)
  | d => .error (mismatch d (.record shape.name))

def ofText (read : Reader α) (s : String) : Except ReadFault α :=
  match Draft.ofText s with
  | (d, trailing) => do
    let a ← read .text d
    if trailing then throw .malformed else return a

def ofJson (read : Reader α) (v : Json) : Except ReadFault α := read .value (.ofJson v)

end Reader

/-- A connective by its word, or as the only member of an object, over null. -/
def Connective.ofJson (v : Json) : Except ReadFault Connective :=
  let named := fun word =>
    match ofKey? word with
    | some c => Except.ok c
    | none => .error (.shape (.unknownVariant word ["all", "any", "not"]))
  match v with
  | .string s => named s
  | .object ⟨[(key, content)]⟩ => do
    let c ← named key
    match content with
    | .null => return c
    | content => throw (Reader.mismatch (.ofJson content) .nothing)
  | .object _ => .error (.shape .notSingleKey)
  | v => .error (Reader.mismatch (.ofJson v) .stringOrMap)

end Verdict
