import Verdict.Json.Basic
import Verdict.Text.Split

/-!
# Paths into values

A path names a place by member keys and list places: `$.user.tags[0]` and `user.tags.0`
are the same path, and `$` is the whole value.
-/
namespace Verdict.Json.Path

def isSeparator (c : Char) : Bool := c = '.' || c = '[' || c = ']'

def dropRoot : List Char → List Char
  | '$' :: cs => cs
  | cs => cs

/-- The keys and places of a path, from the root on. -/
def parts (path : String) : List String :=
  ((Text.split isSeparator (dropRoot path.toList)).filter (!·.isEmpty)).map String.ofList

/-- The member of an object, or the item of an array. -/
def step? (v : Json) (part : String) : Option Json :=
  match v with
  | object members => members.get? part
  | array items => (index? part.toList).bind (items[·]?)
  | _ => none

def follow? (v : Json) (parts : List String) : Option Json := parts.foldlM step? v

theorem follow?_append (v : Json) (p q : List String) :
    follow? v (p ++ q) = (follow? v p).bind (follow? · q) := by
  simp only [follow?, List.foldlM_append]
  rfl

end Path

/-- The value at a path, if the path leads anywhere. -/
def resolve? (v : Json) (path : String) : Option Json := Path.follow? v (Path.parts path)

end Verdict.Json
