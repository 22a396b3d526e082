/-!
# Arguments of the command line

`--rule FILE` and `--facts FILE` are needed; `--conditions FILE`, `--log-level TEXT` and
`--pretty` are not. Each may be given once, a value in the same word or in the next.
-/
namespace Verdict.CommandLine

structure Arguments where
  rule : String
  facts : String
  conditions : Option String
  logLevel : Option String
  pretty : Bool
deriving DecidableEq

/-- The options that take a value. -/
inductive Flag where
  | rule | facts | conditions | logLevel
deriving DecidableEq

namespace Flag

def ofLong? (s : String) : Option Flag :=
  if s = "rule" then some rule
  else if s = "facts" then some facts
  else if s = "conditions" then some conditions
  else if s = "log-level" then some logLevel
  else none

def ofShort? : Char → Option Flag
  | 'r' => some rule
  | 'f' => some facts
  | 'c' => some conditions
  | 'l' => some logLevel
  | _ => none

end Flag

/-- What the arguments ask for, if they are not wrong. -/
inductive Request where
  | run (arguments : Arguments)
  | help
  | version

/-- One word of the command line. -/
inductive Word where
  | flag (flag : Flag) (value : Option String)
  | pretty
  | help
  | version

/-- The part of a word before an equals sign, and the value behind it. -/
def splitValue (cs : List Char) : List Char × Option String :=
  let rest := cs.dropWhile (· != '=')
  (cs.takeWhile (· != '='), rest.tail?.map String.ofList)

/-- The value in a word after a short option; an equals sign in front is left out. -/
def attached : List Char → Option String
  | [] => none
  | '=' :: cs => some (String.ofList cs)
  | cs => some (String.ofList cs)

def Word.read? (s : String) : Option Word :=
  match s.toList with
  | '-' :: '-' :: cs =>
    let (name, value) := splitValue cs
    match Flag.ofLong? (String.ofList name), value with
    | some f, value => some (.flag f value)
    | none, none =>
      if cs = "pretty".toList then some .pretty
      else if cs = "help".toList then some .help
      else if cs = "version".toList then some .version
      else none
    | none, some _ => none
  | '-' :: c :: cs =>
    match Flag.ofShort? c with
    | some f => some (.flag f (attached cs))
    | none => if c = 'h' then some .help else if c = 'V' then some .version else none
  | _ => none

/-- May the word be the value of the option before it? -/
def isValue (s : String) : Bool :=
  match s.toList with
  | '-' :: _ :: _ => false
  | _ => true

/-- The options as far as they are read. -/
structure Given where
  values : List (Flag × String) := []
  pretty : Bool := false

def Given.value? (g : Given) (f : Flag) : Option String :=
  (g.values.find? (·.1 == f)).map (·.2)

/-- No option is given twice, and a file must have a name. -/
def Given.add? (g : Given) (f : Flag) (value : String) : Option Given :=
  if (g.value? f).isSome || (value == "" && f != .logLevel) then none
  else some { g with values := (f, value) :: g.values }

def Given.finish? (g : Given) : Option Request :=
  match g.value? .rule, g.value? .facts with
  | some rule, some facts =>
    some (.run ⟨rule, facts, g.value? .conditions, g.value? .logLevel, g.pretty⟩)
  | _, _ => none

def readWords? (g : Given) : List String → Option Request
  | [] => g.finish?
  | ["--"] => g.finish?
  | word :: rest =>
    match Word.read? word with
    | none => none
    | some .help => some .help
    | some .version => some .version
    | some .pretty => if g.pretty then none else readWords? { g with pretty := true } rest
    | some (.flag f (some value)) => (g.add? f value).bind (readWords? · rest)
    | some (.flag f none) =>
      match rest with
      | value :: rest =>
        if isValue value then (g.add? f value).bind (readWords? · rest) else none
      | [] => none

/-- The request that the arguments make; wrong arguments make none. -/
def read? (arguments : List String) : Option Request := readWords? {} arguments

end Verdict.CommandLine
