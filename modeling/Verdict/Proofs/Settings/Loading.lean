import Mathlib.Data.List.Forall2
import Verdict.Settings.Reader

/-!
# The last layer counts

Of a library of settings it is assumed what is documented: a source that is added later wins for
each key, tables are merged, and values turn into those of fields. Then each setting has the value
of the last layer that sets it, whatever the layers set besides.
-/
namespace Verdict
namespace Settings

/-- What a source holds by itself. -/
def Library.content? (lib : Library) (files : String → Option String) (given : Table String)
    (source : Source) : Option lib.Value := lib.build? files given [] [source]

/-- What is spoken of where a library is described: its tables and their members, and a value merged
over an older one. -/
structure Library.View (lib : Library) where
  IsTable : lib.Value → Prop
  member? : lib.Value → String → Option lib.Value
  merge (older newer : lib.Value) : lib.Value

/-- The sections that have settings of the program. -/
inductive Group where
  | engine
  | observability
deriving DecidableEq

def Group.key : Group → String
  | engine => "engine"
  | observability => "observability"

/-- The place of a setting: a key, or a key of a section. -/
inductive Place where
  | top (key : String)
  | inside (group : Group) (key : String)

namespace Library.View
variable {lib : Library} (view : lib.View)

/-- What a value holds at a place. -/
def at? : Place → lib.Value → Option lib.Value
  | .top key, v => view.member? v key
  | .inside g key, v => (view.member? v g.key).bind (view.member? · key)

/-- The sections of the program are tables, where they are there. -/
def Sectioned (v : lib.Value) : Prop :=
  ∀ (g : Group) (w : lib.Value), view.member? v g.key = some w → view.IsTable w

/-- What is documented of a library, of which so much is assumed of these files, variables and
sources only. -/
structure Documented (files : String → Option String) (given : Table String)
    (defaults : List (String × lib.Value)) (sources : List Source) : Prop where
  /-- What the sources hold is merged over the defaults in the order in which they were added. -/
  build : ∃ initial, view.IsTable initial ∧
    (∀ key, view.member? initial key = defaults.lookup key) ∧
    lib.build? files given defaults sources =
      (sources.mapM (lib.content? files given)).map (·.foldl view.merge initial)
  isTable_content : ∀ source ∈ sources, ∀ v, lib.content? files given source = some v →
    view.IsTable v
  /-- Tables are merged recursively. -/
  isTable_merge : ∀ older newer, view.IsTable older → view.IsTable newer →
    view.IsTable (view.merge older newer)
  member?_merge : ∀ older newer key, view.IsTable older → view.IsTable newer →
    view.member? (view.merge older newer) key =
      match view.member? older key, view.member? newer key with
      | some v, some w => some (view.merge v w)
      | some v, none => some v
      | none, w => w
  /-- Any other value displaces the older one, and is displaced. -/
  merge_eq : ∀ older newer, ¬ (view.IsTable older ∧ view.IsTable newer) →
    view.merge older newer = newer
  /-- A record is read from a table by the names of its fields. -/
  fields?_eq : ∀ names v, view.IsTable v → lib.fields? names v = some (view.member? v)
  text?_ofText : ∀ s, lib.text? (lib.ofText s) = some s
  /-- A table is neither a text nor a truth value. -/
  text?_table : ∀ v, view.IsTable v → lib.text? v = none
  truth?_table : ∀ v, view.IsTable v → lib.truth? v = none

section Values
variable {α : Type} (convert : lib.Value → Option α) {builtIn value : α}

/-- The value of a setting: the last layer that sets its place has something there that converts to
it. If no layer sets the place, it is the one that is built in. -/
inductive Decided (layers : List lib.Value) (place : Place) (builtIn : α) : α → Prop
  | unset (h : ∀ layer ∈ layers, view.at? place layer = none) :
      Decided layers place builtIn builtIn
  | set {before after : List lib.Value} {layer v : lib.Value} {value : α}
      (hlayers : layers = before ++ layer :: after) (hset : view.at? place layer = some v)
      (hafter : ∀ layer' ∈ after, view.at? place layer' = none) (hvalue : convert v = some value) :
      Decided layers place builtIn value

end Values

/-- Each setting is decided by itself. -/
structure Layered (service environment : String) (layers : List lib.Value) (s : Settings) :
    Prop where
  serviceName : view.Decided lib.text? layers (.top "service_name") service s.serviceName
  environment : view.Decided lib.text? layers (.top "environment") environment s.environment
  allowUndefinedFacts : view.Decided lib.truth? layers (.inside .engine "allow_undefined_facts")
    false s.engine.allowUndefinedFacts
  allowUndefinedConditions : view.Decided lib.truth? layers
    (.inside .engine "allow_undefined_conditions") false s.engine.allowUndefinedConditions
  replaceFactsInEventParams : view.Decided lib.truth? layers
    (.inside .engine "replace_facts_in_event_params") false s.engine.replaceFactsInEventParams
  factCache : view.Decided lib.truth? layers (.inside .engine "fact_cache") true s.engine.factCache
  logLevel : view.Decided lib.text? layers (.inside .observability "log_level") "info" s.logLevel
  jsonLogs : view.Decided lib.truth? layers (.inside .observability "json_logs") false s.jsonLogs

/-- What the last of the layers that holds anything at the place holds there. -/
def last? (place : Place) (layers : List lib.Value) : Option lib.Value :=
  layers.reverse.findSome? (view.at? place)

variable {view}
variable {files : String → Option String} {given : Table String}
variable {defaults : List (String × lib.Value)} {sources : List Source}
variable {older newer initial : lib.Value} {layers : List lib.Value} {place : Place}
variable {α : Type} {convert : lib.Value → Option α} {builtIn value : α}

theorem last?_cons (place : Place) (layer : lib.Value) (layers : List lib.Value) :
    view.last? place (layer :: layers) = (view.last? place layers).or (view.at? place layer) := by
  rw [last?, List.reverse_cons, List.findSome?_append, List.findSome?_singleton]
  rfl

theorem field?_eq (fields : String → Option lib.Value) (name : String) :
    lib.field? fields name convert builtIn = ((fields name).map convert).getD (some builtIn) := by
  unfold field?
  cases fields name <;> rfl

namespace Documented
variable (h : view.Documented files given defaults sources)
include h

theorem convert_merge (hconvert : ∀ v, view.IsTable v → convert v = none) (v w : lib.Value) :
    convert (view.merge v w) = convert w := by
  by_cases htables : view.IsTable v ∧ view.IsTable w
  · rw [hconvert _ (h.isTable_merge v w htables.1 htables.2), hconvert w htables.2]
  · rw [h.merge_eq v w htables]

/-- What is newer counts at a place where it holds anything, and else what is older. -/
theorem map_member?_merge (holder : view.IsTable older) (hnewer : view.IsTable newer)
    (hconvert : ∀ v, view.IsTable v → convert v = none) (key : String) :
    (view.member? (view.merge older newer) key).map convert =
      ((view.member? newer key).map convert).or ((view.member? older key).map convert) := by
  rw [h.member?_merge older newer key holder hnewer]
  cases view.member? older key with
  | none => cases view.member? newer key <;> rfl
  | some v =>
    cases view.member? newer key with
    | none => rfl
    | some w => exact congrArg some (h.convert_merge hconvert v w)

theorem map_at?_merge (holder : view.IsTable older) (hnewer : view.IsTable newer)
    (hsection : view.Sectioned older) (hsection' : view.Sectioned newer)
    (hconvert : ∀ v, view.IsTable v → convert v = none) :
    (view.at? place (view.merge older newer)).map convert =
      ((view.at? place newer).map convert).or ((view.at? place older).map convert) := by
  cases place with
  | top key => exact h.map_member?_merge holder hnewer hconvert key
  | inside g key =>
    rw [at?, at?, at?, h.member?_merge older newer g.key holder hnewer]
    cases hv : view.member? older g.key with
    | none => cases view.member? newer g.key <;> simp
    | some v =>
      cases hw : view.member? newer g.key with
      | none => rfl
      | some w => exact h.map_member?_merge (hsection g v hv) (hsection' g w hw) hconvert key

theorem sectioned_merge (holder : view.IsTable older) (hnewer : view.IsTable newer)
    (hsection : view.Sectioned older) (hsection' : view.Sectioned newer) :
    view.Sectioned (view.merge older newer) := by
  intro g u hu
  rw [h.member?_merge older newer g.key holder hnewer] at hu
  cases hv : view.member? older g.key with
  | none =>
    rw [hv] at hu
    exact hsection' g u hu
  | some v =>
    cases hw : view.member? newer g.key with
    | none =>
      rw [hv, hw] at hu
      exact hsection g u (hv.trans hu)
    | some w =>
      rw [hv, hw] at hu
      obtain rfl := Option.some.inj hu
      exact h.isTable_merge v w (hsection g v hv) (hsection' g w hw)

/-- Tables merged over each other are a table, in which sections are still tables. -/
theorem isTable_foldl_merge (hinitial : view.IsTable initial ∧ view.Sectioned initial)
    (hlayers : ∀ layer ∈ layers, view.IsTable layer ∧ view.Sectioned layer) :
    view.IsTable (layers.foldl view.merge initial) ∧
      view.Sectioned (layers.foldl view.merge initial) := by
  induction layers generalizing initial with
  | nil => exact hinitial
  | cons layer rest ih =>
    obtain ⟨hlayer, hsection⟩ := hlayers layer List.mem_cons_self
    apply ih
    · exact ⟨h.isTable_merge initial layer hinitial.1 hlayer,
        h.sectioned_merge hinitial.1 hlayer hinitial.2 hsection⟩
    · exact fun layer' hlayer' => hlayers layer' (List.mem_cons_of_mem layer hlayer')

/-- Layers over each other hold at a place what the last one holds there that holds anything. -/
theorem map_at?_foldl_merge (hinitial : view.IsTable initial ∧ view.Sectioned initial)
    (hlayers : ∀ layer ∈ layers, view.IsTable layer ∧ view.Sectioned layer)
    (hconvert : ∀ v, view.IsTable v → convert v = none) (place : Place) :
    (view.at? place (layers.foldl view.merge initial)).map convert =
      ((view.last? place layers).map convert).or ((view.at? place initial).map convert) := by
  induction layers generalizing initial with
  | nil => rfl
  | cons layer rest ih =>
    obtain ⟨hlayer, hsection⟩ := hlayers layer List.mem_cons_self
    have hmerged : view.IsTable (view.merge initial layer) ∧
        view.Sectioned (view.merge initial layer) :=
      ⟨h.isTable_merge initial layer hinitial.1 hlayer,
        h.sectioned_merge hinitial.1 hlayer hinitial.2 hsection⟩
    have hrest := ih hmerged fun layer' hlayer' =>
      hlayers layer' (List.mem_cons_of_mem layer hlayer')
    rw [List.foldl_cons, hrest,
      h.map_at?_merge hinitial.1 hlayer hinitial.2 hsection hconvert, last?_cons, Option.map_or,
      Option.or_assoc]

/-- A name shows in the built-in layer. -/
theorem field?_top_eq (hinitial : view.IsTable initial ∧ view.Sectioned initial)
    (hlayers : ∀ layer ∈ layers, view.IsTable layer ∧ view.Sectioned layer) {key name : String}
    (hkey : view.member? initial key = some (lib.ofText name)) (builtIn : String) :
    lib.field? (view.member? (layers.foldl view.merge initial)) key lib.text? builtIn =
      ((view.last? (.top key) layers).map lib.text?).getD (some name) := by
  have hplace := h.map_at?_foldl_merge hinitial hlayers h.text?_table (.top key)
  rw [at?, at?, hkey, Option.map_some, h.text?_ofText] at hplace
  rw [field?_eq, hplace]
  cases view.last? (.top key) layers <;> rfl

/-- A setting of a section does not. -/
theorem field?_inside_eq (hinitial : view.IsTable initial ∧ view.Sectioned initial)
    (hlayers : ∀ layer ∈ layers, view.IsTable layer ∧ view.Sectioned layer)
    (hconvert : ∀ v, view.IsTable v → convert v = none) {g : Group} {key : String}
    (hnone : view.at? (.inside g key) initial = none) :
    lib.field? (fun key => view.at? (.inside g key) (layers.foldl view.merge initial)) key convert
        builtIn =
      ((view.last? (.inside g key) layers).map convert).getD (some builtIn) := by
  have hplace := h.map_at?_foldl_merge hinitial hlayers hconvert (.inside g key)
  rw [hnone, Option.map_none, Option.or_none] at hplace
  rw [field?_eq, hplace]

/-- A section is a record with the settings at the places in it. -/
theorem field?_record?_eq {root : lib.Value} (hroot : view.IsTable root ∧ view.Sectioned root)
    (g : Group) (names : List String) (make : (String → Option lib.Value) → Option α)
    (hmake : make (fun _ => none) = some builtIn) :
    lib.field? (view.member? root) g.key (lib.record? names make) builtIn =
      make fun key => view.at? (.inside g key) root := by
  simp only [field?, at?]
  cases hget : view.member? root g.key with
  | none => exact hmake.symm
  | some v =>
    have hfields := h.fields?_eq names v (hroot.2 g v hget)
    simp only [record?, hfields, Option.bind_some]

end Documented

theorem getD_last?_eq_some_iff :
    ((view.last? place layers).map convert).getD (some builtIn) = some value ↔
      view.Decided convert layers place builtIn value := by
  constructor
  · intro h
    cases hlast : view.last? place layers with
    | none =>
      rw [hlast] at h
      obtain rfl := Option.some.inj h
      have hnone := List.findSome?_eq_none_iff.1 hlast
      exact .unset fun layer hlayer => hnone layer (List.mem_reverse.2 hlayer)
    | some v =>
      rw [hlast] at h
      obtain ⟨after, layer, before, hlayers, hset, hafter⟩ := List.findSome?_eq_some_iff.1 hlast
      have hlayers' : layers = before.reverse ++ layer :: after.reverse := by
        rw [← List.reverse_reverse layers, hlayers]
        simp
      exact .set hlayers' hset (fun layer' h => hafter layer' (List.mem_reverse.1 h)) h
  · intro h
    cases h with
    | unset h =>
      have hlast : view.last? place layers = none :=
        List.findSome?_eq_none_iff.2 fun layer hlayer => h layer (List.mem_reverse.1 hlayer)
      rw [hlast]
      rfl
    | @set before after layer v _ hlayers hset hafter hvalue =>
      have hlast : view.last? place layers = some v := by
        apply List.findSome?_eq_some_iff.2
        refine ⟨after.reverse, layer, before.reverse, ?_, hset, ?_⟩
        · rw [hlayers]
          simp
        · exact fun layer' h => hafter layer' (List.mem_reverse.1 h)
      rw [hlast]
      exact hvalue

/-- The record that is read from layers over the built-in names has settings as they are layered. -/
theorem Documented.record?_eq_some_iff {service environment : String}
    (h : view.Documented files given (lib.defaults service environment) sources)
    (hinitial : view.IsTable initial)
    (hmember : ∀ key, view.member? initial key = (lib.defaults service environment).lookup key)
    (hlayers : ∀ layer ∈ layers, view.IsTable layer ∧ view.Sectioned layer)
    (names : List String) {s : Settings} :
    lib.record? names lib.settingsOf? (layers.foldl view.merge initial) = some s ↔
      view.Layered service environment layers s := by
  have hsection : view.Sectioned initial := by
    intro g v hv
    rw [hmember] at hv
    cases g <;> cases hv
  let root := layers.foldl view.merge initial
  have hroot : view.IsTable root ∧ view.Sectioned root :=
    h.isTable_foldl_merge ⟨hinitial, hsection⟩ hlayers
  have hname {key name : String} (hkey : view.member? initial key = some (lib.ofText name))
      (builtIn : String) : lib.field? (view.member? root) key lib.text? builtIn = _ :=
    h.field?_top_eq ⟨hinitial, hsection⟩ hlayers hkey builtIn
  have hnone (g : Group) (key : String) : view.at? (.inside g key) initial = none := by
    rw [at?, hmember]
    cases g <;> rfl
  have hinside {α : Type} {convert : lib.Value → Option α}
      (hconvert : ∀ v, view.IsTable v → convert v = none) (g : Group) (key : String) (builtIn : α) :
      lib.field? (fun key => view.at? (.inside g key) root) key convert builtIn = _ :=
    h.field?_inside_eq ⟨hinitial, hsection⟩ hlayers hconvert (hnone g key)
  have hengine (names : List String) : lib.field? (view.member? root) "engine"
      (lib.record? names lib.engineOf?) ({} : Settings).engine =
        lib.engineOf? fun key => view.at? (.inside .engine key) root :=
    h.field?_record?_eq hroot .engine names _ rfl
  have hlogs (names : List String) : lib.field? (view.member? root) "observability"
      (lib.record? names lib.logsOf?) (({} : Settings).logLevel, ({} : Settings).jsonLogs) =
        lib.logsOf? fun key => view.at? (.inside .observability key) root :=
    h.field?_record?_eq hroot .observability names _ rfl
  rw [record?, h.fields?_eq names root hroot.1, Option.bind_some, settingsOf?]
  simp only [hengine, hlogs, engineOf?, logsOf?, hname (hmember "service_name"),
    hname (hmember "environment"), hinside h.text?_table, hinside h.truth?_table,
    Option.bind_eq_bind, Option.bind_eq_some_iff, getD_last?_eq_some_iff]
  constructor
  · rintro ⟨serviceName, h₁, environment, h₂, engine, ⟨facts, h₃, conditions, h₄, params, h₅,
      cache, h₆, hengine⟩, logs, ⟨level, h₇, json, h₈, hlogs⟩, hs⟩
    cases hengine
    cases hlogs
    cases hs
    exact ⟨h₁, h₂, h₃, h₄, h₅, h₆, h₇, h₈⟩
  · intro h
    exact ⟨_, h.serviceName, _, h.environment, _, ⟨_, h.allowUndefinedFacts, _,
      h.allowUndefinedConditions, _, h.replaceFactsInEventParams, _, h.factCache, rfl⟩, _,
      ⟨_, h.logLevel, _, h.jsonLogs, rfl⟩, rfl⟩

end Library.View

theorem forall₂_iff_mapM_eq_some {α β : Type} {f : α → Option β} {l : List α} {l' : List β} :
    List.Forall₂ (fun a b => f a = some b) l l' ↔ l.mapM f = some l' := by
  induction l generalizing l' with
  | nil => simp [eq_comm]
  | cons a l ih =>
    simp only [List.forall₂_cons_left_iff, ih, List.mapM_cons, Option.bind_eq_bind,
      Option.bind_eq_some_iff, Option.pure_def, Option.some_inj, exists_and_left,
      eq_comm (a := l')]

theorem exists_of_forall₂ {α β : Type} {R : α → β → Prop} {l : List α} {l' : List β}
    (h : List.Forall₂ R l l') {b : β} (hb : b ∈ l') : ∃ a ∈ l, R a b := by
  induction h with
  | nil => cases hb
  | cons hab _ ih =>
    rcases List.mem_cons.1 hb with rfl | hb
    · exact ⟨_, List.mem_cons_self, hab⟩
    · obtain ⟨a, ha, hab⟩ := ih hb
      exact ⟨a, List.mem_cons_of_mem _ ha, hab⟩

/-- Settings load as they are layered. The layers are what `default.toml`, the file of the
environment, that of the service and the variables hold, and each setting has the value of the last
one that sets it, or else the built-in one. The environment is that of its variable alone. -/
theorem load_eq_some_iff {lib : Library} (view : lib.View) {service : String}
    {files : String → Option String} {given : Table String}
    (h : view.Documented files given (lib.defaults service (environmentOf given))
      (sources service (environmentOf given)))
    (hsections : ∀ source ∈ sources service (environmentOf given), ∀ v,
      lib.content? files given source = some v → view.Sectioned v) (s : Settings) :
    let environment := (given.get? "RULES_ENV").getD "development"
    lib.load service files given = some s ↔
      ∃ layers, List.Forall₂ (fun source layer => lib.content? files given source = some layer)
          [.file "default.toml" false, .file (environment ++ ".toml") false,
            .file (service ++ ".toml") false, .variables "RULES" "_" "__" true] layers ∧
        view.Layered service environment layers s := by
  change _ ↔ ∃ layers, List.Forall₂ (fun source layer => lib.content? files given source =
    some layer) (sources service (environmentOf given)) layers ∧
      view.Layered service (environmentOf given) layers s
  obtain ⟨initial, hinitial, hmember, hbuild⟩ := h.build
  have hlayers {layers : List lib.Value}
      (hcontents : (sources service (environmentOf given)).mapM (lib.content? files given) =
        some layers) : ∀ layer ∈ layers, view.IsTable layer ∧ view.Sectioned layer := by
    intro layer hlayer
    obtain ⟨source, hsource, hcontent⟩ := exists_of_forall₂
      (forall₂_iff_mapM_eq_some.2 hcontents) hlayer
    exact ⟨h.isTable_content source hsource layer hcontent,
      hsections source hsource layer hcontent⟩
  simp only [Library.load, hbuild, Option.bind_eq_bind, Option.bind_eq_some_iff,
    Option.map_eq_some_iff, forall₂_iff_mapM_eq_some]
  constructor
  · rintro ⟨_, ⟨layers, hcontents, rfl⟩, hload⟩
    refine ⟨layers, hcontents, ?_⟩
    exact (h.record?_eq_some_iff hinitial hmember (hlayers hcontents) _).1 hload
  · rintro ⟨layers, hcontents, hlayered⟩
    refine ⟨_, ⟨layers, hcontents, rfl⟩, ?_⟩
    exact (h.record?_eq_some_iff hinitial hmember (hlayers hcontents) _).2 hlayered


/-- The values of the reader as tables. -/
@[reducible]
def readerView : reader.View where
  IsTable v := ∃ t, v = Setting.table t
  member? v := v.entries.get?
  merge older newer := newer.onto older

theorem get?_ofList_defaults (service environment key : String) :
    (Table.ofList (reader.defaults service environment)).get? key =
      (reader.defaults service environment).lookup key := by
  have hofList : Table.ofList (reader.defaults service environment) =
      (Table.empty.insert "service_name" (.scalar (.text service))).insert "environment"
        (.scalar (.text environment)) := rfl
  rw [hofList, Table.get?_insert, Table.get?_insert]
  by_cases hname : key = "service_name"
  · subst hname
    rfl
  · by_cases henvironment : key = "environment"
    · subst henvironment
      rfl
    · rw [if_neg henvironment, if_neg hname, Library.defaults, List.lookup_cons, List.lookup_cons,
        beq_false_of_ne hname, beq_false_of_ne henvironment]
      rfl

/-- What is documented is so of the reader, if the sources do not set parts of one path. -/
theorem documented_reader {service environment : String} {files : String → Option String}
    {given : Table String} {sources : List Source}
    (hbuild : reader.build? files given (reader.defaults service environment) sources =
      (sources.mapM (reader.content? files given)).map
        (·.foldl readerView.merge (.table (.ofList (reader.defaults service environment))))) :
    readerView.Documented files given (reader.defaults service environment) sources where
  build := ⟨_, ⟨_, rfl⟩, get?_ofList_defaults service environment, hbuild⟩
  isTable_content source _ v hv := by
    obtain ⟨t, -, rfl⟩ := Option.map_eq_some_iff.1 hv
    exact ⟨t, rfl⟩
  isTable_merge := by
    rintro _ _ ⟨⟨l⟩, rfl⟩ ⟨t, rfl⟩
    exact ⟨_, rfl⟩
  member?_merge := by
    rintro _ _ key ⟨t, rfl⟩ ⟨t', rfl⟩
    have hold : readerView.member? (.table t) key = t.get? key := rfl
    have hnew : readerView.member? (.table t') key = t'.get? key := rfl
    have hmerged : readerView.member? (readerView.merge (.table t) (.table t')) key = _ :=
      Setting.get?_onto t t' key
    rw [hmerged, hold, hnew]
    cases t.get? key <;> cases t'.get? key <;> rfl
  merge_eq older newer h := by
    cases older with
    | table t =>
      cases newer with
      | table t' => exact absurd ⟨⟨t, rfl⟩, ⟨t', rfl⟩⟩ h
      | _ => rfl
    | _ => rfl
  fields?_eq := by
    rintro names _ ⟨t, rfl⟩
    rfl
  text?_ofText _ := rfl
  text?_table := by
    rintro _ ⟨t, rfl⟩
    rfl
  truth?_table := by
    rintro _ ⟨t, rfl⟩
    rfl

theorem load_eq_some_iff_adult :
    let files : String → Option String := fun path =>
      if path = "default.toml" then some "[engine]\nfact_cache = false\n"
      else if path = "adult.toml" then some "[engine]\nallow_undefined_facts = true\n"
      else none
    let given : Table String :=
      .ofList [("RULES_ENV", "test"), ("RULES_OBSERVABILITY__JSON_LOGS", "on")]
    let settings : Settings := ⟨"adult", "test", ⟨true, false, false, false⟩, "info", true⟩
    reader.load "adult" files given = some settings ∧
      ∃ layers, List.Forall₂
          (fun source layer => reader.content? files given source = some layer)
          [.file "default.toml" false, .file "test.toml" false, .file "adult.toml" false,
            .variables "RULES" "_" "__" true] layers ∧
        readerView.Layered "adult" "test" layers settings := by
  intro files given settings
  have hload : reader.load "adult" files given = some settings := by decide +kernel
  have hbuild : reader.build? files given (reader.defaults "adult" "test")
      (sources "adult" "test") =
        ((sources "adult" "test").mapM (reader.content? files given)).map
          (·.foldl readerView.merge (.table (.ofList (reader.defaults "adult" "test")))) := by
    decide +kernel
  have hsections : ∀ source ∈ sources "adult" "test", ∀ v,
      reader.content? files given source = some v → readerView.Sectioned v := by
    have hcheck : ∀ source ∈ sources "adult" "test", ∀ g ∈ [Group.engine, .observability],
        ((reader.content? files given source).bind (readerView.member? · g.key)).all
          (fun w => w = .table w.entries) := by
      decide +kernel
    intro source hsource v hv g w hw
    have hg : g ∈ [Group.engine, .observability] := by cases g <;> decide
    have htable := hcheck source hsource g hg
    rw [hv, Option.bind_some, hw] at htable
    exact ⟨_, of_decide_eq_true htable⟩
  exact ⟨hload, (load_eq_some_iff readerView (documented_reader hbuild) hsections settings).1 hload⟩

end Settings
end Verdict
