import Verdict.Settings.Reader.Value
import Verdict.Text.Blank

/-!
# Settings in sections

A file of names in brackets and of keys with values, each after an equals sign or a colon. All
values are text. Names, keys and values may hold escapes; a name or key may go on over lines, a
value ends with its line. Comments have lines of their own.
-/
namespace Verdict.Settings.Ini

/-- The character that a letter after a backslash stands for; most stand for themselves. -/
def escape : Char → Char
  | '0' => '\x00'
  | 'a' => '\x07'
  | 'b' => '\x08'
  | 't' => '\t'
  | 'r' => '\r'
  | 'n' => '\n'
  | c => c

/-- The text up to a stop, and how many characters it takes. Unless it may end with the file,
the file has to hold a stop. -/
def segment? (isStop : Char → Bool) (mayEnd : Bool) : List Char → Option (List Char × Nat)
  | [] => if mayEnd then some ([], 0) else none
  | c :: rest =>
    if isStop c then some ([], 0)
    else if c = '\\' then
      match rest with
      | [] => if mayEnd then some (['\\'], 1) else none
      | '\n' :: rest => (segment? isStop mayEnd rest).map fun (cs, n) => (cs, n + 2)
      | 'x' :: h :: i :: j :: k :: rest => do
        let point ← digitsIn? 16 [h, i, j, k]
        if point.isValidChar then
          (segment? isStop mayEnd rest).map fun (cs, n) => (Char.ofNat point :: cs, n + 6)
        else none
      | e :: rest =>
        if e = 'x' then none
        else (segment? isStop mayEnd rest).map fun (cs, n) => (escape e :: cs, n + 2)
    else (segment? isStop mayEnd rest).map fun (cs, n) => (c :: cs, n + 1)

def isLineEnd (c : Char) : Bool := c = '\n' || c = '\r'

def isSpace (c : Char) : Bool := Text.isBlank c && !isLineEnd c

def isQuote (c : Char) : Bool := c = '"' || c = '\''

/-- The value in the rest of a line and how many characters it takes. Quoted parts in front are
joined to what follows them; blanks count in quotes only. -/
def value? (isFirst : Bool) (cs : List Char) : Option (List Char × Nat) :=
  match cs with
  | [] => some ([], 0)
  | c :: rest =>
    if isQuote c then
      match segment? (· = c) false rest with
      | some (text, n) =>
        (value? false (rest.drop (n + 1))).map fun (more, m) => (text ++ more, n + 2 + m)
      | none => none
    else
      (segment? isLineEnd true (c :: rest)).map fun (text, n) =>
        (if isFirst then Text.trim text else Text.trimRight text, n)
termination_by cs.length
decreasing_by
  rw [List.length_drop, List.length_cons]
  omega

inductive Entry where
  | heading (name : String)
  | entry (key value : String)

/-- The entries of a text; `isFresh` at the start of a line. -/
def entries? (isFresh : Bool) (cs : List Char) : Option (List Entry) :=
  match cs with
  | [] => some []
  | c :: rest =>
    if Text.isBlank c then entries? (c = '\n') rest
    else if c = ';' || c = '#' then
      if isFresh then entries? true ((rest.dropWhile (· != '\n')).drop 1) else none
    else if c = '[' then
      match segment? (· = ']') false rest with
      | some (name, n) =>
        (entries? false (rest.drop (n + 1))).map (.heading (String.ofList (Text.trim name)) :: ·)
      | none => none
    else
      match segment? (fun c => c = '=' || c = ':') false (c :: rest) with
      | some (key, n) =>
        if (Text.trim key).isEmpty then none
        else
          let behind := rest.drop n
          let written := behind.dropWhile isSpace
          match value? true written with
          | some (v, m) =>
            (entries? false (written.drop m)).map
              (.entry (String.ofList (Text.trim key)) (String.ofList v) :: ·)
          | none => none
      | none => none
termination_by cs.length
decreasing_by
  · exact Nat.lt_succ_self _
  · rw [List.length_drop, List.length_cons]
    have := (List.dropWhile_suffix (l := rest) (· != '\n')).length_le
    omega
  · rw [List.length_drop, List.length_cons]
    omega
  · rw [List.length_drop, List.length_cons]
    have := (List.dropWhile_suffix (l := rest.drop n) isSpace).length_le
    rw [List.length_drop] at this
    omega

/-- Adds an entry; `current` is the section that is open. A section that begins again begins
anew. -/
def add (root : Table Setting) (current : Option String) : Entry → Table Setting × Option String
  | .heading name => (root.insert name (.table .empty), some name)
  | .entry key value =>
    let v := Setting.scalar (.text value)
    match current with
    | none => (root.insert key v, none)
    | some name =>
      let t := ((root.get? name).getD .gap).entries
      (root.insert name (.table (t.insert key v)), some name)

def read? (s : String) : Option (Table Setting) :=
  (entries? true s.toList).map fun l =>
    (l.foldl (fun (root, current) e => add root current e) (Table.empty, none)).1

end Verdict.Settings.Ini
