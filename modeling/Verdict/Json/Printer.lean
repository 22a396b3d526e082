import Verdict.Json.Basic
import Verdict.Number.Layout

/-!
# Written JSON

The compact text of a value and its indented text. Members stand in the order of their
keys, so equal tables have one text.
-/
namespace Verdict

def hexDigit (n : Nat) : Char := Nat.digitChar (n % 16)

namespace Json

/-- A character inside a quoted string. -/
def escape (c : Char) : List Char :=
  if c = '"' then ['\\', '"']
  else if c = '\\' then ['\\', '\\']
  else if c.toNat < 0x20 then
    match c.toNat with
    | 8 => ['\\', 'b']
    | 9 => ['\\', 't']
    | 10 => ['\\', 'n']
    | 12 => ['\\', 'f']
    | 13 => ['\\', 'r']
    | n => ['\\', 'u', '0', '0', hexDigit (n / 16), hexDigit n]
  else [c]

def quoted (s : String) : List Char := '"' :: s.toList.flatMap escape ++ ['"']

def integerText (n : Int) : List Char :=
  (if n < 0 then ['-'] else []) ++ Nat.toDigits 10 n.natAbs

def numberText : Number → List Char
  | .integer n _ => integerText n
  | .double x => Layout.json.write x

mutual

def chars : Json → List Char
  | null => "null".toList
  | bool true => "true".toList
  | bool false => "false".toList
  | number n => numberText n
  | string s => quoted s
  | array items => '[' :: itemChars items ++ [']']
  | object ⟨members⟩ => '{' :: memberChars members ++ ['}']

def itemChars : List Json → List Char
  | [] => []
  | [v] => chars v
  | v :: rest => chars v ++ ',' :: itemChars rest

def memberChars : List (String × Json) → List Char
  | [] => []
  | [(k, v)] => quoted k ++ ':' :: chars v
  | (k, v) :: rest => quoted k ++ ':' :: chars v ++ ',' :: memberChars rest

end

/-- The compact text. -/
def text (v : Json) : String := String.ofList (chars v)

def newline (depth : Nat) : List Char := '\n' :: List.replicate (2 * depth) ' '

mutual

/-- Each item and member on a line of its own, two blanks deeper than what holds it. -/
def indentedChars (depth : Nat) : Json → List Char
  | array [] => ['[', ']']
  | array items => '[' :: indentedItems (depth + 1) items ++ newline depth ++ [']']
  | object ⟨[]⟩ => ['{', '}']
  | object ⟨members⟩ => '{' :: indentedMembers (depth + 1) members ++ newline depth ++ ['}']
  | v => chars v

def indentedItems (depth : Nat) : List Json → List Char
  | [] => []
  | [v] => newline depth ++ indentedChars depth v
  | v :: rest => newline depth ++ indentedChars depth v ++ ',' :: indentedItems depth rest

def indentedMembers (depth : Nat) : List (String × Json) → List Char
  | [] => []
  | [(k, v)] => newline depth ++ quoted k ++ ':' :: ' ' :: indentedChars depth v
  | (k, v) :: rest =>
    newline depth ++ quoted k ++ ':' :: ' ' :: indentedChars depth v ++ ',' ::
      indentedMembers depth rest

end

def indented (v : Json) : String := String.ofList (indentedChars 0 v)

end Json
end Verdict
