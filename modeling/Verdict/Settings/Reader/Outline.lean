import Verdict.Json.Draft
import Verdict.Settings.Reader.Document

/-!
# Settings in outlines

An outline has a line for each key, with a colon after it and perhaps a value. The lines below
that are indented further make a table of a key without a value. Comments begin with a number
sign, in a line of their own or after a blank. No table has a key twice.
-/
namespace Verdict.Settings.Outline

/-- The text up to a comment, which follows a blank. -/
def uncommented : List Char → List Char
  | [] => []
  | c :: rest => if isSpace c && rest.head? == some '#' then [] else c :: uncommented rest

/-- What is before the first colon that a blank or the end follows, and what is after it. -/
def colon? : List Char → Option (List Char × List Char)
  | [] => none
  | ':' :: [] => some ([], [])
  | ':' :: c :: rest =>
    if isSpace c then some ([], c :: rest)
    else (colon? (c :: rest)).map fun (key, after) => (':' :: key, after)
  | c :: rest => (colon? rest).map fun (key, after) => (c :: key, after)

/-- The text up to the closing single quote, which is doubled inside, and what follows. -/
def literal? : List Char → Option (List Char × List Char)
  | [] => none
  | '\'' :: '\'' :: rest => (literal? rest).map fun (cs, rest) => ('\'' :: cs, rest)
  | '\'' :: rest => some ([], rest)
  | c :: rest => (literal? rest).map fun (cs, rest) => (c :: cs, rest)

/-- A text in quotes, and what follows it. -/
def quoted? : List Char → Option (List Char × List Char)
  | '"' :: rest => Document.quoted? rest
  | '\'' :: rest => literal? rest
  | _ => none

/-- May a text without quotes begin like this? -/
def isPlain : List Char → Bool
  | [] => false
  | c :: rest =>
    if ['-', '?', ':'].contains c then rest.head?.any fun d => !isSpace d
    else !"\t#,[]\x7b\x7d&*!|>'\"%@\x60".toList.contains c

/-- What a text without quotes stands for. -/
def ofPlain (cs : List Char) : Setting :=
  let word := String.ofList cs
  if ["~", "null", "Null", "NULL"].contains word then .gap
  else if ["true", "True", "TRUE"].contains word then .scalar (.bool true)
  else if ["false", "False", "FALSE"].contains word then .scalar (.bool false)
  else
    match (integer? cs).bind int64? with
    | some n => .scalar (.integer n)
    | none =>
      match if cs.any Char.isDigit then Floating.read? cs else none with
      | some x => .scalar (.floating x)
      | none => .scalar (.text word)

/-- The value in what follows a colon, or nothing where there is none. -/
def value? (cs : List Char) : Option (Option Setting) :=
  match quoted? (cs.dropWhile isSpace) with
  | some (text, rest) =>
    if (uncommented rest).all isSpace then some (some (.scalar (.text (String.ofList text))))
    else none
  | none =>
    let word := Text.trim (uncommented cs)
    if word.isEmpty then some none
    else if isPlain word && (colon? word).isNone then some (some (ofPlain word))
    else if ['[', '\x7b'].contains (word.headD ' ') then
      (Json.ofText? (String.ofList word)).map fun v => some (.ofJson v)
    else none

structure Line where
  indent : Nat
  key : String
  value : Option Setting

def line? (cs : List Char) : Option Line := do
  let body := cs.dropWhile (· = ' ')
  let (key, rest) ← match quoted? body with
    | some (key, rest) => if rest.head? == some ':' then some (key, rest.drop 1) else none
    | none =>
      if isPlain body then (colon? body).filter fun (key, _) => uncommented key = key else none
  let value ← value? rest
  return ⟨cs.length - body.length, String.ofList (Text.trimRight key), value⟩

/-- The lines that are neither blank nor comments. Three hyphens may be the first of several. -/
def lines? (s : String) : Option (List Line) :=
  let written := (Document.lines s.toList).filter fun cs =>
    !(cs.dropWhile isSpace).head?.all (· == '#')
  match written with
  | ['-', '-', '-'] :: l :: rest => (l :: rest).mapM line?
  | l => l.mapM line?

/-- The lines before the first one that is not indented further than to a depth. -/
def below (depth : Nat) (lines : List Line) : List Line :=
  lines.takeWhile fun l => depth < l.indent

def beside (depth : Nat) (lines : List Line) : List Line :=
  lines.dropWhile fun l => depth < l.indent

/-- Where the first line has its key. -/
def depthOf (lines : List Line) : Nat := (lines.head?.map Line.indent).getD 0

/-- The setting of a line, given the table of those below it if there are any. -/
def Line.setting? (l : Line) : Option (Table Setting) → Option Setting
  | none => some (l.value.getD .gap)
  | some t => if l.value.isNone then some (.table t) else none

/-- The table of lines whose keys stand at a depth, with other lines below them. -/
def table? (depth : Nat) (lines : List Line) : Option (Table Setting) :=
  match lines with
  | [] => some .empty
  | l :: rest => do
    let inner ← table? (depthOf (below depth rest)) (below depth rest)
    let outer ← table? depth (beside depth rest)
    let s ← l.setting? (if (below depth rest).isEmpty then none else some inner)
    if l.indent = depth && !outer.contains l.key then some (outer.insert l.key s) else none
termination_by lines.length
decreasing_by
  · exact Nat.lt_succ_of_le (List.takeWhile_prefix _).length_le
  · exact Nat.lt_succ_of_le (List.dropWhile_suffix _).length_le

def read? (s : String) : Option (Table Setting) :=
  (lines? s).bind fun lines => table? (depthOf lines) lines

end Verdict.Settings.Outline
