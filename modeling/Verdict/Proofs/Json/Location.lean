import Verdict.Json.Path
import Verdict.Proofs.Text.Split

/-!
# Locations in values

A location is a way into a value by member keys and places in arrays. Every location that a value
has is reached by its path in each of the written forms, and a path that goes on behind another
leads on from where that one leads.
-/
namespace Verdict.Json

namespace Path

/-- The keys and places in a text that has no root. -/
def pieces (cs : List Char) : List (List Char) := (Text.split isSeparator cs).filter (!·.isEmpty)

theorem parts_eq (path : String) : parts path = (pieces (dropRoot path.toList)).map String.ofList :=
  rfl

theorem pieces_append_separator {c : Char} (h : isSeparator c) (cs ds : List Char) :
    pieces (cs ++ c :: ds) = pieces cs ++ pieces ds := by
  rw [pieces, Text.split_append_separator isSeparator h, List.filter_append]
  rfl

theorem pieces_cons_separator {c : Char} (h : isSeparator c) (cs : List Char) :
    pieces (c :: cs) = pieces cs :=
  pieces_append_separator h [] cs

theorem pieces_eq_singleton {cs : List Char} (hne : cs ≠ [])
    (h : ∀ c ∈ cs, isSeparator c = false) : pieces cs = [cs] := by
  rw [pieces, Text.split_eq_singleton h]
  simp [hne]

/-- Does the text begin with the mark of the whole value? -/
def IsRooted (path : String) : Prop := path.toList.head? = some '$'

theorem dropRoot_of_not_isRooted {path : String} (h : ¬ IsRooted path) :
    dropRoot path.toList = path.toList := by
  unfold dropRoot
  split
  · rename_i cs he
    exact absurd (congrArg List.head? he) h
  · rfl

theorem dropRoot_append_point (cs ds : List Char) :
    dropRoot (cs ++ '.' :: ds) = dropRoot cs ++ '.' :: ds := by
  cases cs with
  | nil => rfl
  | cons c cs =>
    by_cases h : c = '$'
    · subst h
      rfl
    · simp [dropRoot, h]

/-- A path that goes on behind a point has the parts of both. -/
theorem parts_append_point (p : String) {q : String} (h : ¬ IsRooted q) :
    parts (p ++ "." ++ q) = parts p ++ parts q := by
  have hlist : (p ++ "." ++ q).toList = p.toList ++ '.' :: q.toList := by simp
  rw [parts_eq, hlist, dropRoot_append_point, pieces_append_separator (by decide), List.map_append,
    parts_eq p, parts_eq q, dropRoot_of_not_isRooted h]

/-- A step to a member of an object or to an item of an array. What counts the items is a word of
the machine. -/
inductive Step where
  | member (key : String)
  | item (index : UInt64)

namespace Step

/-- How the step is written. -/
def part : Step → String
  | member key => key
  | item index => String.ofList (Nat.toDigits 10 index.toNat)

/-- A key that can be written is not empty and has no separator in it. -/
def Plain : Step → Prop
  | member key => key ≠ "" ∧ ∀ c ∈ key.toList, isSeparator c = false
  | item _ => True

/-- Where the step leads from a value that has such a member or item. -/
def lead? (v : Json) (s : Step) : Option Json :=
  match v, s with
  | object members, member key => members.get? key
  | array items, item index => items[index.toNat]?
  | _, _ => none

end Step

/-- The value at a location. -/
def locate? (v : Json) (location : List Step) : Option Json := location.foldlM Step.lead? v

/-- A step stands behind a point or in brackets. -/
inductive Form where
  | pointed
  | bracketed

def Form.write : Form → String → List Char
  | pointed, part => '.' :: part.toList
  | bracketed, part => '[' :: (part.toList ++ [']'])

/-- A path from the root, each step in a form of its own, such as `$.user.tags[0]` or
`$.user.tags.0`. -/
def rooted (way : List (Form × Step)) : String :=
  String.ofList ('$' :: way.flatMap fun e => e.1.write e.2.part)

/-- A path without the root, such as `user.tags.0`. -/
def dotted (location : List Step) : String := ".".intercalate (location.map Step.part)

theorem isSeparator_of_isDigit {c : Char} (h : c.isDigit) : isSeparator c = false := by
  have hne (d : Char) (hd : d.isDigit = false) : c ≠ d := by
    rintro rfl
    cases h.symm.trans hd
  simp [isSeparator, hne '.' rfl, hne '[' rfl, hne ']' rfl]

theorem index?_toDigits {n : Nat} (h : n < 0x10000000000000000) :
    index? (Nat.toDigits 10 n) = some n := by
  unfold index?
  split
  · rename_i cs he
    have hplus : '+' ∈ Nat.toDigits 10 n := by simp [he]
    exact absurd (isDigit_of_mem_toDigits hplus) (by decide)
  · simp [digits?_toDigits, h]

namespace Step
variable {s : Step}

theorem part_spec (h : s.Plain) :
    s.part.toList ≠ [] ∧ ∀ c ∈ s.part.toList, isSeparator c = false := by
  cases s with
  | member key => exact ⟨fun he => h.1 (String.toList_eq_nil_iff.1 he), h.2⟩
  | item index =>
    rw [part, String.toList_ofList]
    exact ⟨Nat.toDigits_ne_nil, fun c hc => isSeparator_of_isDigit (isDigit_of_mem_toDigits hc)⟩

/-- The parts of a path take the steps that are there. -/
theorem step?_part {v w : Json} (h : s.lead? v = some w) : step? v s.part = some w := by
  cases s with
  | member key =>
    cases v with
    | object members => exact h
    | _ => cases h
  | item index =>
    cases v with
    | array items =>
      rw [step?, part, String.toList_ofList, index?_toDigits index.toNat_lt]
      exact h
    | _ => cases h

end Step

theorem follow?_part {location : List Step} {v w : Json} (h : locate? v location = some w) :
    follow? v (location.map Step.part) = some w := by
  induction location generalizing v with
  | nil => exact h
  | cons s rest ih =>
    obtain ⟨u, hu, hrest⟩ := Option.bind_eq_some_iff.1 h
    exact Option.bind_eq_some_iff.2 ⟨u, Step.step?_part hu, ih hrest⟩

theorem pieces_append {cs ds : List Char} (h : ∀ c ∈ ds.head?, isSeparator c) :
    pieces (cs ++ ds) = pieces cs ++ pieces ds := by
  cases ds with
  | nil => simp [pieces, Text.split]
  | cons d ds =>
    have hd : isSeparator d := h d rfl
    rw [pieces_append_separator hd, pieces_cons_separator hd]

theorem pieces_write {s : Step} (h : s.Plain) (form : Form) :
    pieces (form.write s.part) = [s.part.toList] := by
  obtain ⟨hne, hfree⟩ := Step.part_spec h
  cases form with
  | pointed => exact (pieces_cons_separator (by decide) _).trans (pieces_eq_singleton hne hfree)
  | bracketed =>
    calc pieces ('[' :: (s.part.toList ++ [']']))
        = pieces (s.part.toList ++ [']']) := pieces_cons_separator (by decide) _
      _ = pieces s.part.toList ++ pieces [] := pieces_append_separator (by decide) _ _
      _ = [s.part.toList] := by rw [pieces_eq_singleton hne hfree]; rfl

theorem head?_flatMap_write (way : List (Form × Step)) :
    ∀ c ∈ (way.flatMap fun e => e.1.write e.2.part).head?, isSeparator c := by
  intro c hc
  cases way with
  | nil => cases hc
  | cons e rest =>
    obtain ⟨form, s⟩ := e
    cases form <;> cases hc <;> rfl

/-- The pieces of a written way are the steps, whatever the form of each. -/
theorem pieces_flatMap_write {way : List (Form × Step)} (h : ∀ e ∈ way, e.2.Plain) :
    pieces (way.flatMap fun e => e.1.write e.2.part) = way.map (·.2.part.toList) := by
  induction way with
  | nil => rfl
  | cons e rest ih =>
    rw [List.flatMap_cons, pieces_append (head?_flatMap_write rest),
      pieces_write (h e List.mem_cons_self), ih fun e he => h e (List.mem_cons_of_mem _ he)]
    rfl

theorem parts_rooted {way : List (Form × Step)} (h : ∀ e ∈ way, e.2.Plain) :
    parts (rooted way) = (way.map (·.2)).map Step.part := by
  rw [parts_eq, rooted, String.toList_ofList, dropRoot, pieces_flatMap_write h, List.map_map,
    List.map_map]
  exact List.map_congr_left fun e _ => String.ofList_toList

theorem pieces_intercalate {location : List Step} (h : ∀ s ∈ location, s.Plain) :
    pieces (['.'].intercalate (location.map (·.part.toList))) =
      location.map (·.part.toList) := by
  induction location with
  | nil => rfl
  | cons s rest ih =>
    obtain ⟨hne, hfree⟩ := Step.part_spec (h s List.mem_cons_self)
    rw [List.map_cons]
    by_cases hrest : rest = []
    · subst hrest
      simpa using pieces_eq_singleton hne hfree
    · have hmap : rest.map (·.part.toList) ≠ [] := by simpa using hrest
      rw [List.intercalate_cons_of_ne_nil hmap, List.append_assoc, List.singleton_append,
        pieces_append_separator (by decide), pieces_eq_singleton hne hfree,
        ih fun s hs => h s (List.mem_cons_of_mem _ hs)]
      rfl

theorem not_isRooted_dotted {location : List Step} (h : ∀ s ∈ location, s.Plain)
    (hroot : ∀ s ∈ location.head?, ¬ IsRooted s.part) : ¬ IsRooted (dotted location) := by
  cases location with
  | nil => exact nofun
  | cons s rest =>
    have hhead : (dotted (s :: rest)).toList.head? = s.part.toList.head? := by
      obtain ⟨hne, -⟩ := Step.part_spec (h s List.mem_cons_self)
      rw [dotted, String.toList_intercalate, List.map_cons, List.map_cons]
      cases hs : s.part.toList with
      | nil => exact absurd hs hne
      | cons c cs =>
        by_cases hrest : rest = []
        · simp [hrest]
        · rw [List.intercalate_cons_of_ne_nil (by simpa using hrest)]
          rfl
    rw [IsRooted, hhead]
    exact hroot s rfl

theorem parts_dotted {location : List Step} (h : ∀ s ∈ location, s.Plain)
    (hroot : ∀ s ∈ location.head?, ¬ IsRooted s.part) :
    parts (dotted location) = location.map Step.part := by
  have hlist : (dotted location).toList =
      ['.'].intercalate (location.map (·.part.toList)) := by
    rw [dotted, String.toList_intercalate, List.map_map]
    rfl
  rw [parts_eq, dropRoot_of_not_isRooted (not_isRooted_dotted h hroot), hlist,
    pieces_intercalate h, List.map_map]
  exact List.map_congr_left fun s _ => String.ofList_toList

/-- Every location that a value has, if its keys can be written, is reached by its path: from the
root in any forms of the steps, and without the root if that is not taken for one. A path that goes
on behind another leads on from where that one leads, if it leads anywhere. -/
theorem resolve?_location (v : Json) :
    (∀ way : List (Form × Step), (∀ e ∈ way, e.2.Plain) →
      ∀ w, locate? v (way.map (·.2)) = some w → v.resolve? (rooted way) = some w) ∧
    (∀ location : List Step, (∀ s ∈ location, s.Plain) →
      (∀ s ∈ location.head?, ¬ IsRooted s.part) →
      ∀ w, locate? v location = some w → v.resolve? (dotted location) = some w) ∧
    ∀ p q : String, ¬ IsRooted q →
      v.resolve? (p ++ "." ++ q) = (v.resolve? p).bind (·.resolve? q) := by
  refine ⟨fun way hplain w hw => ?_, fun location hplain hroot w hw => ?_, fun p q hq => ?_⟩
  · rw [resolve?, parts_rooted hplain]
    exact follow?_part hw
  · rw [resolve?, parts_dotted hplain hroot]
    exact follow?_part hw
  · rw [resolve?, parts_append_point p hq, follow?_append]
    rfl

/-- A key may look like a place: here `0` is a member, and `1` an item. -/
theorem resolve?_location_tag :
    let v := object (.ofList [("user", object (.ofList [("0", array [.null, string "vip"])]))])
    v.resolve? "$.user[0].1" = some (string "vip") ∧ v.resolve? "user.0.1" = some (string "vip") ∧
      v.resolve? ("$.user" ++ "." ++ "0.1") = (v.resolve? "$.user").bind (·.resolve? "0.1") := by
  intro v
  let location : List Step := [.member "user", .member "0", .item 1]
  let way : List (Form × Step) :=
    [(.pointed, .member "user"), (.bracketed, .member "0"), (.pointed, .item 1)]
  have hplain : ∀ s ∈ location, s.Plain := by simp [location, Step.Plain, isSeparator]
  have hrooted : rooted way = "$.user[0].1" := by decide
  have hdotted : dotted location = "user.0.1" := by decide
  have h := resolve?_location v
  refine ⟨?_, ?_, h.2.2 _ _ (by simp [IsRooted])⟩
  · rw [← hrooted]
    exact h.1 way (fun e he => hplain e.2 (List.mem_map_of_mem he)) _ rfl
  · rw [← hdotted]
    exact h.2.1 location hplain (by simp [location, IsRooted, Step.part]) _ rfl

end Path
end Verdict.Json
