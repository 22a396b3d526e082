import Verdict.Settings.Reader.Path

/-!
# Settings files

A file is a list of lines: blank, a section in brackets, or a key, an equals sign and a
truth value, an integer or quoted text. No key and no section is given twice.
-/
namespace Verdict.Settings.Document

/-- Controls other than the tab stand in no comment and no quoted text. -/
def isText (c : Char) : Bool := c = '\t' || (0x20 ≤ c.toNat && c.toNat != 0x7f)

/-- Only blanks and perhaps a comment. -/
def isEnd (cs : List Char) : Bool :=
  match cs.dropWhile isSpace with
  | [] => true
  | c :: comment => c = '#' && comment.all isText

/-- A key and what follows it and the blanks after it. -/
def key? (cs : List Char) : Option (String × List Char) :=
  let cs := cs.dropWhile isSpace
  let key := cs.takeWhile isKeyChar
  if key.isEmpty then none
  else some (String.ofList key, (cs.drop key.length).dropWhile isSpace)

/-- The character that a single letter after a backslash stands for. -/
def shortEscape? : Char → Option Char
  | 'b' => some '\x08'
  | 't' => some '\t'
  | 'n' => some '\n'
  | 'f' => some '\x0c'
  | 'r' => some '\r'
  | 'e' => some '\x1b'
  | '"' => some '"'
  | '\\' => some '\\'
  | _ => none

/-- How many digits of a code point follow a letter after a backslash. -/
def codeLength? : Char → Option Nat
  | 'x' => some 2
  | 'u' => some 4
  | 'U' => some 8
  | _ => none

/-- The character of a code point that is no half of a surrogate pair. -/
def charOf? (n : Nat) : Option Char := if n.isValidChar then some (Char.ofNat n) else none

/-- What stands for a character after a backslash: that character, and the length. -/
def escape? : List Char → Option (Char × Nat)
  | [] => none
  | c :: rest =>
    match codeLength? c with
    | some n =>
      if rest.length < n then none
      else ((digitsIn? 16 (rest.take n)).bind charOf?).map (·, n + 1)
    | none => (shortEscape? c).map (·, 1)

/-- The text up to the closing quote, and what follows that. -/
def quoted? : List Char → Option (List Char × List Char)
  | [] => none
  | c :: rest =>
    if c = '"' then some ([], rest)
    else if c = '\\' then
      match escape? rest with
      | some (e, length) => (quoted? (rest.drop length)).map fun (cs, rest) => (e :: cs, rest)
      | none => none
    else if isText c then (quoted? rest).map fun (cs, rest) => (c :: cs, rest)
    else none
termination_by cs => cs.length
decreasing_by
  · rw [List.length_drop, List.length_cons]
    omega
  · exact Nat.lt_succ_self _

/-- Digits of a base with underscores only between them. -/
def grouped? (base : Nat) (cs : List Char) : Option Nat :=
  let groups := Text.split (· = '_') cs
  if groups.any List.isEmpty then none else digitsIn? base groups.flatten

/-- An integer in base ten, perhaps with a sign but without zeros in front, or in base sixteen,
eight or two after `0x`, `0o` or `0b`. -/
def number? : List Char → Option Int
  | '0' :: 'x' :: digits => (grouped? 16 digits).map Int.ofNat
  | '0' :: 'o' :: digits => (grouped? 8 digits).map Int.ofNat
  | '0' :: 'b' :: digits => (grouped? 2 digits).map Int.ofNat
  | cs =>
    let (negative, digits) := splitSign cs
    if digits.head? == some '0' && digits.length != 1 then none
    else (grouped? 10 digits).map (signed negative)

def value? (cs : List Char) : Option Scalar :=
  match cs with
  | '"' :: rest =>
    match quoted? rest with
    | some (text, rest) => if isEnd rest then some (.text (String.ofList text)) else none
    | none => none
  | cs =>
    let isPlain := fun c => !isSpace c && c != '#'
    let word := cs.takeWhile isPlain
    if !isEnd (cs.dropWhile isPlain) then none
    else if word = "true".toList then some (.bool true)
    else if word = "false".toList then some (.bool false)
    else ((number? word).bind int64?).map .integer

inductive Line where
  | blank
  | heading (name : String)
  | entry (key : String) (value : Scalar)

def line? (cs : List Char) : Option Line :=
  if isEnd cs then some .blank
  else
    match cs.dropWhile isSpace with
    | '[' :: rest =>
      match key? rest with
      | some (name, ']' :: rest) => if isEnd rest then some (.heading name) else none
      | _ => none
    | cs =>
      match key? cs with
      | some (key, '=' :: rest) => (value? (rest.dropWhile isSpace)).map (.entry key)
      | _ => none

def withoutReturn (cs : List Char) : List Char :=
  if cs.getLast? == some '\r' then cs.dropLast else cs

/-- The lines of a text without their ends, a line feed and perhaps a carriage return before
it. -/
def lines (cs : List Char) : List (List Char) :=
  let pieces := Text.split (· = '\n') cs
  pieces.dropLast.map withoutReturn ++ pieces.getLast?.toList

/-- Adds a line; `current` is the section that is open. -/
def add? (root : Table Setting) (current : Option String) :
    Line → Option (Table Setting × Option String)
  | .blank => some (root, current)
  | .heading name =>
    if root.contains name then none else some (root.insert name (.table .empty), some name)
  | .entry key v =>
    match current with
    | none => if root.contains key then none else some (root.insert key (.scalar v), none)
    | some name =>
      match root.get? name with
      | some (.table t) =>
        if t.contains key then none
        else some (root.insert name (.table (t.insert key (.scalar v))), some name)
      | _ => none

/-- The settings that a file gives, unless one of its lines is wrong. -/
def read? (s : String) : Option (Table Setting) := do
  let (root, _) ← (lines (Text.unmarked s.toList)).foldlM
    (fun (root, current) cs => do add? root current (← line? cs)) (Table.empty, none)
  return root

end Verdict.Settings.Document
