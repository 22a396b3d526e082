import Verdict.CommandLine.Run

/-!
# The program

Reads the files that the command line names and prints the reports of their rules.
-/
namespace Verdict.CommandLine

/-- The variables that settings can come from. -/
def variableNames : List String := [
  "RULES_ENV", "RULES_SERVICE_NAME", "RULES_ENVIRONMENT", "RULES_ENGINE", "RULES_OBSERVABILITY",
  "RULES_ENGINE__ALLOW_UNDEFINED_FACTS", "RULES_ENGINE__ALLOW_UNDEFINED_CONDITIONS",
  "RULES_ENGINE__REPLACE_FACTS_IN_EVENT_PARAMS", "RULES_ENGINE__FACT_CACHE",
  "RULES_OBSERVABILITY__LOG_LEVEL", "RULES_OBSERVABILITY__JSON_LOGS"]

def readVariables : IO (Table String) :=
  variableNames.foldlM (fun t name => do
    match ← IO.getEnv name with
    | some s => return t.insert name s
    | none => return t) .empty

def readFile (path : String) : IO (Except String String) := do
  try
    return .ok (← IO.FS.readFile path)
  catch
    | .noFileOrDirectory .. => return .error "No such file or directory (os error 2)"
    | .permissionDenied .. => return .error "Permission denied (os error 13)"
    | .inappropriateType none .. => return .error "Is a directory (os error 21)"
    | .inappropriateType (some _) .. => return .error "Not a directory (os error 20)"
    | .invalidArgument .. => return .error "File name too long (os error 36)"
    | .userError _ => return .error "stream did not contain valid UTF-8"
    | e => return .error (toString e)

/-- Reads all the files whose names are given. -/
def snapshot (paths : List String) : IO (List (String × Except String String)) :=
  paths.mapM fun path => do return (path, ← readFile path)

def Files.ofSnapshot (l : List (String × Except String String)) : Files := fun path =>
  match l.find? (·.1 == path) with
  | some (_, content) => content
  | none => .error "No such file or directory (os error 2)"

/-- The paths at which the contents of one settings file may stand. -/
def candidates (path : String) : List String :=
  path :: Settings.Format.endings.map (path ++ ·.1)

def readSettings : IO EngineSettings := do
  let given ← readVariables
  let directory := (← IO.getEnv "CONFIG_DIR").getD "config"
  let paths := Settings.filePaths serviceName (Settings.environmentOf given)
  let files ← (paths.flatMap candidates).foldlM (fun t path => do
    match ← readFile (if path.startsWith "/" then path else directory ++ "/" ++ path) with
    | .ok content => return Table.insert t path content
    | .error _ => return t) Table.empty
  return engineSettings files.get? given

def usage : String :=
  "Usage: rule-eval --rule FILE --facts FILE [--conditions FILE] [--log-level TEXT] [--pretty]"

end Verdict.CommandLine

open Verdict.CommandLine in
def main (args : List String) : IO UInt32 := do
  match read? args with
  | none =>
    IO.eprintln usage
    return 2
  | some .help =>
    IO.println usage
    return 0
  | some .version =>
    IO.println "rule-eval 0.1.0"
    return 0
  | some (.run arguments) =>
    let paths := arguments.rule :: arguments.facts :: arguments.conditions.toList
    let files ← snapshot paths
    match run (← readSettings) (.ofSnapshot files) arguments with
    | .ok output =>
      IO.print output
      return 0
    | .error failure =>
      IO.eprintln failure.text
      return 1
