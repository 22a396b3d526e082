import Verdict.Json.Basic

/-!
# Tokens of a JSON text

Text is cut into tokens up to the first place that cannot start or end one; there the list
ends with `bad`. A number beyond the doubles and a string with half a surrogate pair are
tokens without a value.
-/
namespace Verdict.Json

inductive Token where
  | leftBrace | rightBrace | leftBracket | rightBracket | colon | comma
  | null
  | bool (b : Bool)
  | number (n : Option Number)
  | string (s : Option String)
  | bad

namespace Token

def isSpace (c : Char) : Bool := c = ' ' || c = '\n' || c = '\t' || c = '\r'

/-- The character that a single letter after a backslash stands for. -/
def shortEscape? : Char → Option Char
  | '"' => some '"'
  | '\\' => some '\\'
  | '/' => some '/'
  | 'b' => some '\x08'
  | 'f' => some '\x0c'
  | 'n' => some '\n'
  | 'r' => some '\r'
  | 't' => some '\t'
  | _ => none

/-- The code points up to the closing quote, and how many characters they and it take. -/
def content : List Char → Option (List Nat × Nat)
  | [] => none
  | '"' :: _ => some ([], 1)
  | '\\' :: 'u' :: a :: b :: c :: d :: rest => do
    let n ← digitsIn? 16 [a, b, c, d]
    let (points, length) ← content rest
    some (n :: points, length + 6)
  | '\\' :: e :: rest => do
    let c ← shortEscape? e
    let (points, length) ← content rest
    some (c.toNat :: points, length + 2)
  | c :: rest =>
    if c = '\\' ∨ c.toNat < 0x20 then none
    else do
      let (points, length) ← content rest
      some (c.toNat :: points, length + 1)

def isHighSurrogate (n : Nat) : Bool := 0xd800 ≤ n && n < 0xdc00

def isLowSurrogate (n : Nat) : Bool := 0xdc00 ≤ n && n < 0xe000

/-- Joins surrogate pairs; a half of one alone has no character. -/
def joinPairs : List Nat → Option (List Char)
  | [] => some []
  | m :: n :: rest =>
    if isHighSurrogate m then
      if isLowSurrogate n then
        (joinPairs rest).map (Char.ofNat (0x10000 + 0x400 * (m - 0xd800) + (n - 0xdc00)) :: ·)
      else none
    else if isLowSurrogate m then none
    else (joinPairs (n :: rest)).map (Char.ofNat m :: ·)
  | [m] => if isHighSurrogate m || isLowSurrogate m then none else some [Char.ofNat m]

/-- An exponent with at least one digit, and its length; no exponent has length zero. -/
def exponent? : List Char → Option (Int × Nat)
  | c :: rest =>
    if c = 'e' ∨ c = 'E' then
      let (negative, body) := splitSign rest
      let digits := body.takeWhile Char.isDigit
      if digits.isEmpty then none
      else
        some (signed negative (Nat.ofDigitChars 10 digits 0),
          1 + (rest.length - body.length) + digits.length)
    else some (0, 0)
  | [] => some (0, 0)

/-- A fraction with at least one digit; no fraction is an empty list. -/
def fraction? : List Char → Option (List Char)
  | '.' :: rest =>
    let digits := rest.takeWhile Char.isDigit
    if digits.isEmpty then none else some digits
  | _ => some []

/-- The number at the start of the text and its length. Zeros in front are no number. -/
def numeral? (negative : Bool) (cs : List Char) : Option (Option Number × Nat) := do
  let whole := cs.takeWhile Char.isDigit
  if whole.isEmpty || (whole.head? == some '0' && whole.length != 1) then none
  let rest := cs.drop whole.length
  let fraction ← fraction? rest
  let pointed := if fraction.isEmpty then 0 else fraction.length + 1
  let (exponent, written) ← exponent? (rest.drop pointed)
  let value :=
    if pointed + written = 0 then Number.ofWhole? negative (Nat.ofDigitChars 10 whole 0)
    else (Decimal.ofParts negative whole fraction exponent).toDouble?.map Number.double
  some (value, whole.length + pointed + written)

def keyword? (t : Token) (letters : String) (cs : List Char) : Option (Token × Nat) :=
  if letters.toList.isPrefixOf cs then some (t, letters.length) else none

/-- The token that starts with `c`, and how many characters of the rest belong to it. -/
def next? (c : Char) (rest : List Char) : Option (Token × Nat) :=
  match c with
  | '{' => some (leftBrace, 0)
  | '}' => some (rightBrace, 0)
  | '[' => some (leftBracket, 0)
  | ']' => some (rightBracket, 0)
  | ':' => some (colon, 0)
  | ',' => some (comma, 0)
  | '"' => (content rest).map fun (points, length) =>
      (string ((joinPairs points).map String.ofList), length)
  | 'n' => keyword? null "ull" rest
  | 't' => keyword? (bool true) "rue" rest
  | 'f' => keyword? (bool false) "alse" rest
  | '-' => (numeral? true rest).map fun (n, length) => (number n, length)
  | c =>
    if c.isDigit then (numeral? false (c :: rest)).map fun (n, length) => (number n, length - 1)
    else none

def tokens : List Char → List Token
  | [] => []
  | c :: rest =>
    if isSpace c then tokens rest
    else
      match next? c rest with
      | some (t, length) => t :: tokens (rest.drop length)
      | none => [bad]
termination_by cs => cs.length
decreasing_by
  · exact Nat.lt_succ_self _
  · rw [List.length_drop, List.length_cons]
    omega

end Token
end Verdict.Json
