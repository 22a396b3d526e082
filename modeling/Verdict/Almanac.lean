import Verdict.Fact.Basic
import Verdict.Provider
import Verdict.Table

/-!
# Almanac

The almanac holds facts and keeps the values it has computed under their keys. Replacing
or removing a fact forgets all kept values. A computation that fails keeps nothing. Requests
for a value that is being computed share the computation.
-/
namespace Verdict

structure AlmanacOptions where
  /-- Is a fact that is not there null instead of a fault? -/
  allowUndefinedFacts : Bool := false
  factCache : Bool := true
deriving DecidableEq

structure Almanac where
  facts : Table Fact
  cache : Table Json
  /-- How often the computation of each fact was begun. -/
  calls : Table Nat
  options : AlmanacOptions

namespace Almanac

def empty (options : AlmanacOptions) : Almanac := ⟨.empty, .empty, .empty, options⟩

def clearCache (a : Almanac) : Almanac := { a with cache := .empty }

def addFact (a : Almanac) (f : Fact) : Almanac :=
  let added := { a with facts := a.facts.insert f.id f }
  if a.facts.contains f.id then added.clearCache else added

def addRuntimeFact (a : Almanac) (id : String) (value : Json) : Except Fault Almanac :=
  (Fact.constant id value).map a.addFact

def removeFact (a : Almanac) (id : String) : Bool × Almanac :=
  if a.facts.contains id then (true, { a with facts := a.facts.erase id }.clearCache)
  else (false, a)

def callsOf (a : Almanac) (id : String) : Nat := (a.calls.get? id).getD 0

def totalCalls (a : Almanac) : Nat := a.calls.entries.foldl (fun n e => n + e.2) 0

end Almanac

/-- An almanac in use. -/
structure Consultation where
  almanac : Almanac
  /-- The keys whose values are being computed. -/
  underway : List String := []

namespace Consultation

def isUnderway (c : Consultation) (key : String) : Bool := c.underway.contains key

def start (key : String) (c : Consultation) : Consultation :=
  { c with underway := key :: c.underway }

/-- The computation for a key is over; a value is kept. -/
def finish (key : String) (r : Except Fault Json) (c : Consultation) : Consultation :=
  let a := match r with
    | .ok v => { c.almanac with cache := c.almanac.cache.insert key v }
    | .error _ => c.almanac
  ⟨a, c.underway.erase key⟩

end Consultation

namespace Almanac

/-- Counts one more computation and gives the number of those before it. -/
def beginCall (id : String) : Action Consultation Nat := .read fun c =>
  let a := c.almanac
  .write { c with almanac := { a with calls := a.calls.insert id (a.callsOf id + 1) } }
    (.done (.ok (a.callsOf id)))

variable (answer : String → Json → Option String → Action Consultation Json)

def calculate (f : Fact) (params : Json) : Action Consultation Json :=
  match f.source with
  | .constant v => pure v
  | .dynamic compute => do
    let n ← beginCall f.id
    (compute n params).run answer

/-- The key of a request, if its value may be kept. -/
def keyOf? (a : Almanac) (f : Fact) (params : Json) : Option String :=
  if a.options.factCache then f.cacheKey params else none

/-- The kept value, or else what an action gives. -/
def keptOr (key : String) (action : Action Consultation Json) : Action Consultation Json := do
  let c ← .state
  match c.almanac.cache.get? key with
  | some v => pure v
  | none => action

/-- What an action gives is the value of the key; other requests for it can wait. -/
def keep (key : String) (action : Action Consultation Json) : Action Consultation Json := do
  .modify (Consultation.start key)
  action.andThen fun r => do
    .modify (Consultation.finish key r)
    .ofExcept r

/-- The kept value, or one that is calculated and then kept. While it is being calculated
already, the request waits for that. -/
def compute (f : Fact) (params : Json) : Action Consultation Json := do
  let c ← .state
  match c.almanac.keyOf? f params with
  | none => calculate answer f params
  | some key =>
    let fresh := keep key (calculate answer f params)
    keptOr key <|
      if c.isUnderway key then .wait (fun c => !c.isUnderway key) (keptOr key fresh) else fresh

/-- Answers a request by computations that nest less than `depth` deep. -/
def request : Nat → String → Json → Option String → Action Consultation Json
  | 0, id, _, _ => .fail (.nestedTooDeep id)
  | depth + 1, id, params, path => do
    let c ← .state
    match c.almanac.facts.get? id with
    | some f => do
      let v ← compute (request depth) f params
      return v.project path
    | none =>
      if c.almanac.options.allowUndefinedFacts then return .null else .fail (.undefinedFact id)

/-- Deep enough for facts none of which depends on itself. -/
def depth (a : Almanac) : Nat := a.facts.size + 1

def provider (depth : Nat) : Provider Consultation where
  factValue := request depth
  factPriority c id := (c.almanac.facts.get? id).map (·.options.priority)

end Almanac
end Verdict
