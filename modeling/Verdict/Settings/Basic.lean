import Verdict.Almanac
import Verdict.Decode
import Verdict.Evaluation

/-!
# Settings

How facts and references that are not there are treated, and how the program names itself
and logs.
-/
namespace Verdict

structure EngineSettings where
  allowUndefinedFacts : Bool := false
  allowUndefinedConditions : Bool := false
  replaceFactsInEventParams : Bool := false
  factCache : Bool := true
deriving DecidableEq

namespace EngineSettings

def almanacOptions (s : EngineSettings) : AlmanacOptions := ⟨s.allowUndefinedFacts, s.factCache⟩

def policy (s : EngineSettings) : Policy :=
  ⟨s.allowUndefinedConditions, s.replaceFactsInEventParams⟩

def reader : Reader EngineSettings := .record {
  name := "EngineConfig"
  fields := [
    .make "allow_undefined_facts" .bool fun b s => { s with allowUndefinedFacts := b },
    .make "allow_undefined_conditions" .bool fun b s => { s with allowUndefinedConditions := b },
    .make "replace_facts_in_event_params" .bool fun b s =>
      { s with replaceFactsInEventParams := b },
    .make "fact_cache" .bool fun b s => { s with factCache := b }]
  initial := {}
  finish := fun _ s => .ok s }

end EngineSettings

structure Settings where
  serviceName : String := ""
  environment : String := ""
  engine : EngineSettings := {}
  logLevel : String := "info"
  jsonLogs : Bool := false
deriving DecidableEq

def Settings.isProduction (s : Settings) : Bool := s.environment == "production"

end Verdict
