import Verdict.Settings.Library
import Verdict.Settings.Reader.Format

/-!
# The reader of the program

The library that the program is run with. It stands for one that is written elsewhere and does what
that does with the files and variables that are met; what is known of loading settings does not rest
on it.
-/
namespace Verdict.Settings.Reader

/-- The text with a point for each separator in it; so many characters are left out first. -/
def pointed (separator : List Char) : Nat → List Char → List Char
  | _, [] => []
  | skipped + 1, _ :: rest => pointed separator skipped rest
  | 0, c :: rest =>
    if separator.isPrefixOf (c :: rest) then '.' :: pointed separator (separator.length - 1) rest
    else c :: pointed separator 0 rest

/-- The path that a variable sets, if its name begins like that. -/
def variablePath? (lead separator name : String) : Option Path :=
  let letters := name.toList.map Char.toLower
  let lead := lead.toList.map Char.toLower
  if lead.isPrefixOf letters then
    some (Path.ofText (String.ofList (pointed separator.toList 0 (letters.drop lead.length))))
  else none

/-- The entries of a file over the settings so far. Their keys are paths. -/
def withFile (t : Table Setting) (file : Table Setting) : Table Setting :=
  file.entries.foldl (fun t (key, s) => setAt s (Path.ofText key) t) t

def withVariable (lead separator : String) (parsed : Bool) (t : Table Setting)
    (nameAndText : String × String) : Table Setting :=
  match variablePath? lead separator nameAndText.1 with
  | some path =>
    let v := if parsed then Scalar.ofText nameAndText.2 else .text nameAndText.2
    setAt (.scalar v) path t
  | none => t

/-- Has the file no name before its ending? -/
def isNameless (path : String) : Bool :=
  (Text.split (· = '/') path.toList).getLast? == some ".toml".toList

/-- The settings of the file at a path. A file without a name cannot be read. Where there is no
file, the first that has one of the endings behind its name counts. A file that is not found or has
no name holds nothing, if it need not be there. -/
def fileAt? (files : String → Option String) (path : String) (required : Bool) :
    Option (Table Setting) :=
  let nothing := if required then none else some .empty
  match files path with
  | some text => if isNameless path then nothing else Format.sectioned.read? text
  | none =>
    match Format.endings.findSome? fun (ending, format) =>
      (files (path ++ ending)).map format.read? with
    | some document => document
    | none => nothing

/-- The settings so far and those of a source over them. -/
def withSource? (files : String → Option String) (given : Table String) (t : Table Setting) :
    Source → Option (Table Setting)
  | .file path required => (fileAt? files path required).map (withFile t)
  | .variables lead leadSeparator separator parsed =>
    some (given.entries.foldl (withVariable (lead ++ leadSeparator) separator parsed) t)

/-- The members of a record; a list gives them in the order of their names. -/
def fields? (names : List String) : Setting → Option (String → Option Setting)
  | .table t => some t.get?
  | .list l => some (Table.ofList (names.zip l)).get?
  | _ => none

def text? : Setting → Option String
  | .scalar v => some v.toText
  | _ => none

def truth? : Setting → Option Bool
  | .scalar v => v.toBool?
  | _ => none

end Reader

@[reducible]
def reader : Library where
  Value := Setting
  ofText s := .scalar (.text s)
  build? files given defaults sources :=
    (sources.foldlM (Reader.withSource? files given) (.ofList defaults)).map .table
  fields? := Reader.fields?
  text? := Reader.text?
  truth? := Reader.truth?

/-- The settings of a service as the program reads them. -/
def load (service : String) (files : String → Option String) (given : Table String) :
    Option Settings := reader.load service files given

end Verdict.Settings
