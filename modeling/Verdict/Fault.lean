import Verdict.Json.Printer
import Verdict.Text.Inspect

/-!
# Faults

What can be wrong with a definition, with the shape of a JSON value, and with an evaluation.
Each fault keeps what it is about; its wording is in one place.
-/
namespace Verdict

/-- Why a field of a definition is not accepted. -/
inductive FieldReason where
  | notString
  | otherThanString (kind : Json.Kind)
  | notInteger (text : String)
  | notPositive
  | leafAtTop
deriving DecidableEq

def FieldReason.message : FieldReason → String
  | notString => "必须是字符串"
  | otherThanString kind => "必须是字符串, 实际为 " ++ kind.name
  | notInteger text => "无法解析为整数: " ++ text
  | notPositive => "必须大于 0"
  | leafAtTop => "顶层条件必须是 all、any、not 或条件引用"

/-- A fault of a condition or of a rule as it is defined. -/
inductive DefinitionFault where
  | missingField (field : String)
  | notAnArray (field : String)
  | unexpectedArray (field : String)
  | notAnObject (kind : Json.Kind)
  | invalidField (field : String) (reason : FieldReason)
deriving DecidableEq

def DefinitionFault.message : DefinitionFault → String
  | missingField field => "Condition: constructor \"" ++ field ++ "\" property required"
  | notAnArray field => "Condition: \"" ++ field ++ "\" must be an array"
  | unexpectedArray field => "Condition: \"" ++ field ++ "\" cannot be an array"
  | notAnObject kind => "Condition: 条件定义必须是 JSON 对象, 实际为 " ++ kind.name
  | invalidField field reason => "Condition: 字段 \"" ++ field ++ "\" 无效: " ++ reason.message

/-- What stands in a place where a value of another shape should be. -/
inductive Found where
  | null
  | boolean (b : Bool)
  | number (n : Number)
  | string (s : String)
  | sequence
  | map
deriving DecidableEq

def Found.message : Found → String
  | null => "null"
  | boolean b => "boolean `" ++ (if b then "true" else "false") ++ "`"
  | number (.integer n _) => "integer `" ++ String.ofList (Json.integerText n) ++ "`"
  | number (.double x) => "floating point `" ++ String.ofList (Layout.json.write x) ++ "`"
  | string s => "string " ++ Text.inspect s
  | sequence => "sequence"
  | map => "map"

inductive Expected where
  | string | boolean | map | int64 | nothing | stringOrMap
  | record (name : String)
deriving DecidableEq

def Expected.message : Expected → String
  | string => "a string"
  | boolean => "a boolean"
  | map => "a map"
  | int64 => "i64"
  | nothing => "unit"
  | stringOrMap => "string or map"
  | record name => "struct " ++ name

/-- A value that is JSON but not of the shape that is read. -/
inductive ShapeFault where
  | missingField (field : String)
  | duplicateField (field : String)
  | wrongType (found : Found) (expected : Expected)
  | outOfRange (n : Number)
  | tooShort (length : Nat) (record : String) (fields : Nat)
  | tooLong (length : Nat)
  | unknownVariant (name : String) (known : List String)
  | notSingleKey
  | definition (fault : DefinitionFault)
deriving DecidableEq

def natText (n : Nat) : String := String.ofList (Nat.toDigits 10 n)

def ShapeFault.message : ShapeFault → String
  | missingField field => "missing field `" ++ field ++ "`"
  | duplicateField field => "duplicate field `" ++ field ++ "`"
  | wrongType found expected =>
    "invalid type: " ++ found.message ++ ", expected " ++ expected.message
  | outOfRange n => "invalid value: " ++ (Found.number n).message ++ ", expected i64"
  | tooShort length record fields =>
    "invalid length " ++ natText length ++ ", expected struct " ++ record ++ " with " ++
      natText fields ++ " elements"
  | tooLong length => "invalid length " ++ natText length ++ ", expected fewer elements in array"
  | unknownVariant name known =>
    "unknown variant `" ++ name ++ "`, expected one of " ++
      ", ".intercalate (known.map fun k => "`" ++ k ++ "`")
  | notSingleKey => "invalid value: map, expected map with a single key"
  | definition fault => fault.message

/-- Why a text or value could not be read: it is no JSON text, or has another shape. -/
inductive ReadFault where
  | malformed
  | shape (fault : ShapeFault)
deriving DecidableEq

def ReadFault.message : ReadFault → String
  | malformed => "malformed JSON text"
  | shape fault => fault.message

/-- What makes a definition, a registration, a request or an evaluation fail. -/
inductive Fault where
  | definition (fault : DefinitionFault)
  | missingOperatorName
  | missingDecoratorName
  | missingFactId
  | groupNotEvaluable (connective : String)
  | unresolvedReference (name : String)
  | unknownOperator (name : String)
  | unknownDecorator (decorator name : String)
  | undefinedFact (id : String)
  | undefinedCondition (name : String)
  | circularReference (names : List String)
  | resultAlreadySet
  | nestedTooDeep (id : String)
  | json (fault : ReadFault)
deriving DecidableEq

namespace Fault

def message : Fault → String
  | definition fault => fault.message
  | missingOperatorName => "Missing operator name"
  | missingDecoratorName => "Missing decorator name"
  | missingFactId => "factId required"
  | groupNotEvaluable connective =>
    "Cannot evaluate() a boolean condition: \"" ++ connective ++ "\""
  | unresolvedReference name => "条件引用 \"" ++ name ++ "\" 必须先解析为具体条件才能求值"
  | unknownOperator name => "Unknown operator: " ++ name
  | unknownDecorator decorator name =>
    "Unknown operator decorator: \"" ++ decorator ++ "\" (in \"" ++ name ++ "\")"
  | undefinedFact id => "Undefined fact: " ++ id
  | undefinedCondition name => "No condition " ++ name ++ " exists"
  | circularReference names => "条件引用存在循环: " ++ " -> ".intercalate names
  | resultAlreadySet => "规则结果已设置, 不能重复设置"
  | nestedTooDeep id => "Computation of fact nests too deeply: " ++ id
  | json fault => "JSON 序列化错误: " ++ fault.message

def code : Fault → String
  | definition (.missingField _) => "MISSING_FIELD"
  | definition (.notAnArray _) => "INVALID_BOOLEAN_PAYLOAD"
  | definition (.unexpectedArray _) => "INVALID_BOOLEAN_PAYLOAD"
  | definition (.notAnObject _) => "INVALID_CONDITION"
  | definition (.invalidField _ _) => "INVALID_CONDITION"
  | missingOperatorName => "MISSING_OPERATOR_NAME"
  | missingDecoratorName => "MISSING_DECORATOR_NAME"
  | missingFactId => "MISSING_FACT_ID"
  | groupNotEvaluable _ => "BOOLEAN_CONDITION_NOT_EVALUABLE"
  | unresolvedReference _ => "UNRESOLVED_CONDITION_REFERENCE"
  | unknownOperator _ => "UNKNOWN_OPERATOR"
  | unknownDecorator _ _ => "UNKNOWN_DECORATOR"
  | undefinedFact _ => "UNDEFINED_FACT"
  | undefinedCondition _ => "UNDEFINED_CONDITION"
  | circularReference _ => "CIRCULAR_CONDITION_REFERENCE"
  | resultAlreadySet => "RESULT_ALREADY_SET"
  | nestedTooDeep _ => "COMPUTATION_TOO_DEEP"
  | json _ => "JSON_ERROR"

def isUndefinedFact : Fault → Bool
  | undefinedFact _ => true
  | _ => false

/-- Is the fault in how something is defined, and not met while evaluating? -/
def isConfiguration : Fault → Bool
  | definition _ | missingOperatorName | missingDecoratorName | missingFactId => true
  | _ => false

end Fault
end Verdict
