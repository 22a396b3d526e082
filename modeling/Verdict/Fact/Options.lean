import Verdict.Decode

/-!
# Options of a fact

Whether its values are kept, and the priority of conditions on it that have none.
-/
namespace Verdict

structure FactOptions where
  cache : Bool := true
  priority : Int64 := 1
deriving DecidableEq

namespace FactOptions

def reader : Reader FactOptions := .record {
  name := "FactOptions"
  fields := [
    .make "cache" .bool fun cache o => { o with cache },
    .make "priority" .int64 fun priority o => { o with priority }]
  initial := {}
  finish := fun _ o => .ok o }

def toJson (o : FactOptions) : Json :=
  .object (.ofList [("cache", .bool o.cache), ("priority", .ofInt64 o.priority)])

def describe (o : FactOptions) : String :=
  "FactOptions \x7b cache: " ++ (if o.cache then "true" else "false") ++ ", priority: " ++
    String.ofList (Json.integerText o.priority.toInt) ++ " \x7d"

end FactOptions
end Verdict
