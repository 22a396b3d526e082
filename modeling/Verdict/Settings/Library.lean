import Verdict.Settings.Basic

/-!
# Loading settings

A library joins sources to one value and turns values into what settings are made of. The program
says which sources it wants, in which order, and what is built in: settings come from the built-in
ones, from `default.toml`, the files of the environment and of the service, and from variables.
-/
namespace Verdict.Settings

/-- What the program asks a library to read. -/
inductive Source where
  /-- A file; one that is not required may be missing. -/
  | file (path : String) (required : Bool)
  /-- The variables whose names begin with a lead and what parts it from a path. Their values may be
  taken for truth values and numbers where they look like them. -/
  | variables (lead leadSeparator separator : String) (parsed : Bool)

/-- A library that reads settings. -/
structure Library where
  Value : Type
  ofText : String → Value
  /-- The value of sources over that of some keys, given the contents of files by their paths, and
  the variables. -/
  build? : (String → Option String) → Table String → List (String × Value) → List Source →
    Option Value
  /-- The fields of a record that has fields of these names. -/
  fields? : List String → Value → Option (String → Option Value)
  text? : Value → Option String
  truth? : Value → Option Bool

/-- The environment is the value of this variable, whatever the files say. -/
def environmentOf (given : Table String) : String :=
  (given.get? "RULES_ENV").getD "development"

/-- The paths of the files that are read for a service, in their order. -/
def filePaths (service environment : String) : List String :=
  ["default", environment, service].map (· ++ ".toml")

/-- What is read for a service, each source over those before it. -/
def sources (service environment : String) : List Source :=
  (filePaths service environment).map (.file · false) ++ [.variables "RULES" "_" "__" true]

namespace Library
variable (lib : Library)

/-- The names of a service and its environment, where no source has others. -/
def defaults (service environment : String) : List (String × lib.Value) :=
  [("service_name", lib.ofText service), ("environment", lib.ofText environment)]

/-- A field of a record, or what is built in where there is none of that name. -/
def field? {α : Type} (fields : String → Option lib.Value) (name : String)
    (convert : lib.Value → Option α) (builtIn : α) : Option α :=
  match fields name with
  | some v => convert v
  | none => some builtIn

/-- A record, made from its fields. -/
def record? {α : Type} (names : List String) (make : (String → Option lib.Value) → Option α)
    (v : lib.Value) : Option α :=
  (lib.fields? names v).bind make

def engineOf? (fields : String → Option lib.Value) : Option EngineSettings := do
  let builtIn : EngineSettings := {}
  return {
    allowUndefinedFacts :=
      ← lib.field? fields "allow_undefined_facts" lib.truth? builtIn.allowUndefinedFacts
    allowUndefinedConditions :=
      ← lib.field? fields "allow_undefined_conditions" lib.truth? builtIn.allowUndefinedConditions
    replaceFactsInEventParams :=
      ← lib.field? fields "replace_facts_in_event_params" lib.truth?
        builtIn.replaceFactsInEventParams
    factCache := ← lib.field? fields "fact_cache" lib.truth? builtIn.factCache }

/-- The level of the log, and whether its lines are JSON. -/
def logsOf? (fields : String → Option lib.Value) : Option (String × Bool) := do
  let builtIn : Settings := {}
  return (← lib.field? fields "log_level" lib.text? builtIn.logLevel,
    ← lib.field? fields "json_logs" lib.truth? builtIn.jsonLogs)

def settingsOf? (fields : String → Option lib.Value) : Option Settings := do
  let builtIn : Settings := {}
  let serviceName ← lib.field? fields "service_name" lib.text? builtIn.serviceName
  let environment ← lib.field? fields "environment" lib.text? builtIn.environment
  let engine ← lib.field? fields "engine"
    (lib.record? ["allow_undefined_facts", "allow_undefined_conditions",
      "replace_facts_in_event_params", "fact_cache"] lib.engineOf?) builtIn.engine
  let (logLevel, jsonLogs) ← lib.field? fields "observability"
    (lib.record? ["log_level", "json_logs"] lib.logsOf?) (builtIn.logLevel, builtIn.jsonLogs)
  return { serviceName, environment, engine, logLevel, jsonLogs }

/-- The settings of a service, given the contents of files by their paths, and the variables. -/
def load (service : String) (files : String → Option String) (given : Table String) :
    Option Settings := do
  let environment := environmentOf given
  let v ← lib.build? files given (lib.defaults service environment) (sources service environment)
  lib.record? ["service_name", "environment", "engine", "observability"] lib.settingsOf? v

end Library
end Verdict.Settings
