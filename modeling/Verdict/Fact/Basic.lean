import Verdict.Action.Basic
import Verdict.Digest
import Verdict.Fact.Options

/-!
# Facts

A fact has a fixed value or a computation. A computation is a tree of requests for other
facts: it asks, goes on from each answer, and ends with a value or a fault. It may pause.
What it does may depend on how often the fact was computed before.
-/
namespace Verdict

inductive Computation where
  | done (outcome : Except Fault Json)
  | ask (id : String) (params : Json) (path : Option String)
    (next : Except Fault Json → Computation)
  | pause (next : Computation)

namespace Computation

/-- Carries out a computation; `answer` answers what it asks. -/
def run {σ : Type} (answer : String → Json → Option String → Action σ Json) :
    Computation → Action σ Json
  | done outcome => .ofExcept outcome
  | ask id params path next => (answer id params path).andThen fun r => run answer (next r)
  | pause next => do
    Action.pause
    run answer next

end Computation

inductive FactSource where
  | constant (value : Json)
  /-- The computation for the parameters of a request, after so many computations. -/
  | dynamic (compute : Nat → Json → Computation)

structure Fact where
  id : String
  source : FactSource
  options : FactOptions
  /-- What tells one value of the fact from another, given its name and the parameters. -/
  keyOf : String → Json → Json

namespace Fact

def defaultKey (id : String) (params : Json) : Json :=
  .object (.ofList [("id", .string id), ("params", params)])

/-- A fact must have a name. -/
def make (id : String) (source : FactSource) : Except Fault Fact :=
  if id = "" then .error .missingFactId else .ok ⟨id, source, {}, defaultKey⟩

def constant (id : String) (value : Json) : Except Fault Fact := make id (.constant value)

def dynamic (id : String) (compute : Nat → Json → Computation) : Except Fault Fact :=
  make id (.dynamic compute)

/-- The key under which a value is kept, if the fact lets its values be kept. -/
def cacheKey (f : Fact) (params : Json) : Option String :=
  if f.options.cache then some (f.keyOf f.id params).digest else none

def constant? (f : Fact) : Option Json :=
  match f.source with
  | .constant v => some v
  | .dynamic _ => none

def describe (f : Fact) : String :=
  let kind := match f.source with
    | .constant v => "Constant(" ++ v.text ++ ")"
    | .dynamic _ => "Dynamic"
  "Fact \x7b id: " ++ Text.inspect f.id ++ ", kind: " ++ Text.inspect kind ++
    ", options: " ++ f.options.describe ++ " \x7d"

end Fact
end Verdict
