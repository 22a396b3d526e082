import Verdict.Settings.Reader.Ini
import Verdict.Settings.Reader.Outline

/-!
# Formats of settings files

The ending of a file names its format. A file holds a table of settings, or cannot be read.
-/
namespace Verdict.Settings

inductive Format where
  | sectioned
  | ini
  | tree
  | outline

namespace Format

/-- The settings in an object of JSON. -/
def tree? (s : String) : Option (Table Setting) :=
  match (Json.ofText? s).map Setting.ofJson with
  | some (.table t) => some t
  | _ => none

/-- The settings in a text, a mark of its byte order left out. -/
def read? (f : Format) (s : String) : Option (Table Setting) :=
  let s := String.ofList (Text.unmarked s.toList)
  match f with
  | sectioned => Document.read? s
  | ini => Ini.read? s
  | tree => tree? s
  | outline => (Outline.read? s).or (tree? s)

/-- The endings of files, the first one found counts. -/
def endings : List (String × Format) := [
  (".toml", sectioned), (".json", tree), (".yaml", outline), (".yml", outline), (".ini", ini),
  (".ron", tree), (".json5", tree)]

end Format
end Verdict.Settings
