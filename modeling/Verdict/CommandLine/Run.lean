import Verdict.CommandLine.Arguments
import Verdict.Rule.Reader
import Verdict.Settings.Reader

/-!
# Running rules from files

The rules, then the facts, then the named conditions are read; then the rules are run over
the facts. The output is the list of their reports.
-/
namespace Verdict.CommandLine

/-- Why a run stops: what could not be done, and perhaps why. -/
structure Failure where
  message : String
  cause : Option String
deriving DecidableEq

namespace Failure

def ofFault (f : Fault) : Failure := ⟨f.message, none⟩

def text (f : Failure) : String :=
  match f.cause with
  | none => "Error: " ++ f.message
  | some cause => "Error: " ++ f.message ++ "\n\nCaused by:\n    " ++ cause

end Failure

/-- The contents of a file, or why there are none. -/
abbrev Files := String → Except String String

def readJson (files : Files) (path : String) : Except Failure Json := do
  let content ← (files path).mapError fun cause => ⟨"读取文件失败: " ++ path, some cause⟩
  match Json.ofText? content with
  | some v => return v
  | none => throw ⟨"JSON 解析失败: " ++ path, some ReadFault.malformed.message⟩

def ruleOf (v : Json) : Except String Rule := do
  let r ← (Rule.reader.ofJson v).mapError ReadFault.message
  r.validated.mapError DefinitionFault.message

/-- One rule, or an array of them. -/
def loadRules (files : Files) (path : String) : Except Failure (List Rule) := do
  let v ← readJson files path
  let items := match v with
    | .array items => items
    | v => [v]
  (items.mapM ruleOf).mapError fun cause => ⟨"规则文件无效: " ++ path, some cause⟩

/-- An almanac with a constant fact for each member. -/
def loadFacts (options : AlmanacOptions) (v : Json) : Except Failure Almanac :=
  match v with
  | .object members =>
    (members.entries.foldlM (fun (a : Almanac) e => a.addRuntimeFact e.1 e.2)
      (Almanac.empty options)).mapError Failure.ofFault
  | _ => .error ⟨"事实文件必须是 JSON 对象", none⟩

def loadConditions (v : Json) : Except Failure (Table Condition) :=
  match v with
  | .object members =>
    members.entries.foldlM (fun t (name, definition) => do
      let c ← (Condition.ofJson definition).mapError fun f =>
        ⟨"命名条件无效: " ++ name, some f.message⟩
      return t.insert name c) .empty
  | _ => .error ⟨"命名条件文件必须是 JSON 对象", none⟩

/-- What the program prints. -/
def run (settings : EngineSettings) (files : Files) (arguments : Arguments) :
    Except Failure String := do
  let rules ← loadRules files arguments.rule
  let almanac ← loadFacts settings.almanacOptions (← readJson files arguments.facts)
  let conditions ← match arguments.conditions with
    | some path => loadConditions (← readJson files path)
    | none => pure .empty
  let engine : Engine := ⟨conditions, settings.policy⟩
  let world : World Consultation := ⟨.withDefaults, { almanac }⟩
  let reports ← ((engine.executeAll (Almanac.provider almanac.depth) rules).run world).1.mapError
    Failure.ofFault
  let output := Json.array (reports.map Report.toJson)
  return (if arguments.pretty then output.indented else output.text) ++ "\n"

/-- The name under which the program looks for its settings. -/
def serviceName : String := "rule-eval"

/-- The settings for the engine; settings that cannot be read are the built-in ones. -/
def engineSettings (files : String → Option String) (given : Table String) : EngineSettings :=
  ((Settings.load serviceName files given).getD {}).engine

end Verdict.CommandLine
