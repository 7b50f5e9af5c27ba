import BlockScript.Settings.Layers
import Mathlib

/-!
# Settings from their layers

Each source of settings makes assignments, some of which are about a given key of a given section. To
lay one source over another is to make its assignments after those of the other, and what becomes of a
key depends on the assignments to it alone (`layer_sectioned`). An assignment puts a value in the place
of what was there, or puts something into it, so that the key holds a table or a list from then on, which
is no value for any field. Only an empty table sets nothing and leaves what it finds. So the last
assignment of the highest layer that sets anything is the one that counts (`layers_override`).
-/

namespace BlockScript

namespace Setting

/-! ## Assignments -/

structure Assignment where
  way : List Step
  value : Setting

/-- The assignments to a key of a section that a source makes by setting what a path leads to. -/
def assignedAt (sec key : String) (value : Setting) : List Step → List Assignment
  | [.key s] =>
    if Text.lowercase s = sec then
      (value.pairs.filter fun p => Text.lowercase p.1 = key).map fun p => ⟨[], p.2⟩
    else []
  | .key s :: .key k :: way => if Text.lowercase s = sec ∧ Text.lowercase k = key then [⟨way, value⟩] else []
  | _ => []

def assigned (source : Setting) (sec key : String) : List Assignment :=
  source.pairs.flatMap fun p => assignedAt sec key p.2 (path p.1)

namespace Assignment

def apply (a : Assignment) (old : Option Setting) : Setting :=
  match a.way, a.value with
  | [], .table pairs => setAll (old.getD (.table [])) pairs
  | [], value => value
  | way, value => (old.getD .nil).setAt way value

/-- An assignment that sets nothing: an empty table has no key to be set. -/
def isIdle : Assignment → Bool
  | ⟨[], .table []⟩ => true
  | _ => false

def given (a : Assignment) : Setting :=
  a.apply none

end Assignment

/-! ## One assignment at a time -/

theorem lookup_cons_ite (p : String × Setting) (rest : List (String × Setting)) (key : String) :
    (p :: rest).lookup key = if p.1 = key then some p.2 else rest.lookup key := by
  obtain ⟨name, value⟩ := p
  by_cases h : name = key
  · simp [h]
  · have : (key == name) = false := beq_eq_false_iff_ne.mpr (Ne.symm h)
    simp [List.lookup_cons, h, this]

theorem lookup_setIn (key other : String) (value : Setting) (pairs : List (String × Setting)) :
    (Table.setIn key value pairs).lookup other = if key = other then some value else pairs.lookup other := by
  induction pairs with
  | nil => simp only [Table.setIn, lookup_cons_ite]
  | cons p rest ih =>
    by_cases hp : p.1 = key
    · by_cases h : key = other <;> simp [Table.setIn, lookup_cons_ite, hp, h]
    · simp only [Table.setIn, if_neg hp, lookup_cons_ite, ih]
      by_cases h : p.1 = other
      · have : ¬ key = other := fun e => hp (h.trans e.symm)
        simp [h, this]
      · simp [h]

theorem find?_put (s : Setting) (key other : String) (value : Setting) :
    (s.put key value).find? other = if key = other then some value else s.find? other :=
  lookup_setIn key other value s.pairs

theorem set_eq_put (root : Setting) (key : String) (value : Setting) :
    root.set key value =
      root.put (Text.lowercase key) (Assignment.apply ⟨[], value⟩ (root.find? (Text.lowercase key))) := by
  cases value <;> simp only [set, Assignment.apply]

theorem find?_set (root : Setting) (key other : String) (value : Setting) :
    (root.set key value).find? other =
      if Text.lowercase key = other then some (Assignment.apply ⟨[], value⟩ (root.find? other))
      else root.find? other := by
  rw [set_eq_put, find?_put]
  split_ifs with h
  · rw [h]
  · rfl

theorem find?_setAt (root : Setting) (k key : String) (way : List Step) (value : Setting) :
    (root.setAt (.key k :: way) value).find? key =
      if Text.lowercase k = key then some (Assignment.apply ⟨way, value⟩ (root.find? key)) else root.find? key := by
  cases way with
  | nil => exact find?_set root k key value
  | cons step way =>
    simp only [setAt, find?_put]
    split_ifs with h
    · rw [h]
      rfl
    · rfl

def assign (old : Option Setting) (assignments : List Assignment) : Option Setting :=
  assignments.foldl (fun old a => some (a.apply old)) old

theorem find?_setAll (root : Setting) (pairs : List (String × Setting)) (key : String) :
    (root.setAll pairs).find? key =
      assign (root.find? key) ((pairs.filter fun p => Text.lowercase p.1 = key).map fun p => ⟨[], p.2⟩) := by
  induction pairs generalizing root with
  | nil => simp only [setAll]; rfl
  | cons p rest ih =>
    rw [setAll, ih, find?_set]
    by_cases h : Text.lowercase p.1 = key
    · simp [h, assign]
    · simp [h]

theorem assign_append (old : Option Setting) (first later : List Assignment) :
    assign old (first ++ later) = assign (assign old first) later :=
  List.foldl_append

/-! ## One source over another -/

def sections : List String := ["scheduler", "logging"]

def isTable : Setting → Bool
  | .table _ => true
  | _ => false

def keepsTables (value : Setting) : List Step → Bool
  | [.key s] => Text.lowercase s ∉ sections || value.isTable
  | .key s :: .slot _ :: _ => Text.lowercase s ∉ sections
  | _ => true

def sectioned (source : Setting) : Bool :=
  source.pairs.all fun p => keepsTables p.2 (path p.1)

def cell (root : Setting) (sec key : String) : Option Setting :=
  (root.find? sec).bind (·.find? key)

structure Tabular (root : Setting) : Prop where
  isTable : root.isTable
  sections : ∀ sec ∈ sections, ∀ s, root.find? sec = some s → s.isTable

theorem find?_getD (old : Option Setting) {empty : Setting} (none : empty.pairs = []) (key : String) :
    (old.getD empty).find? key = old.bind (·.find? key) := by
  cases old with
  | none => rw [Option.getD_none, find?, none]; rfl
  | some s => rfl

theorem isTable_setAt (root : Setting) (s : String) (way : List Step) (value : Setting) :
    (root.setAt (.key s :: way) value).isTable := by
  cases way with
  | nil => rw [setAt, set_eq_put]; rfl
  | cons step way => rfl

theorem isTable_setAll {root : Setting} (h : root.isTable) (pairs : List (String × Setting)) :
    (root.setAll pairs).isTable := by
  induction pairs generalizing root with
  | nil => rwa [setAll]
  | cons p rest ih =>
    rw [setAll, set_eq_put]
    exact ih rfl

theorem exists_path_cons (key : String) : ∃ s way, path key = .key s :: way := by
  unfold path
  simp only
  split
  · exact ⟨_, _, rfl⟩
  · exact ⟨_, _, rfl⟩
  · exact ⟨_, _, rfl⟩

theorem Tabular.setAt {root value : Setting} {s : String} {way : List Step} (h : root.Tabular)
    (keeps : keepsTables value (.key s :: way)) : (root.setAt (.key s :: way) value).Tabular := by
  refine ⟨isTable_setAt root s way value, fun sec mem found hfound => ?_⟩
  rw [find?_setAt] at hfound
  split_ifs at hfound with hs
  · cases hfound
    cases way with
    | nil =>
      have table : value.isTable := by simpa [keepsTables, hs, mem] using keeps
      cases value with
      | table pairs =>
        apply isTable_setAll
        cases old : root.find? sec with
        | none => rfl
        | some s => exact h.sections sec mem s old
      | _ => cases table
    | cons step way =>
      cases step with
      | key k => exact isTable_setAt _ k way value
      | slot index => simp [keepsTables, hs, mem] at keeps
  · exact h.sections sec mem found hfound

theorem cell_setAt {sec : String} (mem : sec ∈ sections) (key : String) (root : Setting) {value : Setting}
    {s : String} {way : List Step} (keeps : keepsTables value (.key s :: way)) :
    (root.setAt (.key s :: way) value).cell sec key =
      assign (root.cell sec key) (assignedAt sec key value (.key s :: way)) := by
  unfold cell
  rw [find?_setAt]
  cases way with
  | nil =>
    by_cases hs : Text.lowercase s = sec
    · have table : value.isTable := by simpa [keepsTables, hs, mem] using keeps
      cases value with
      | table pairs =>
        have start := find?_getD (root.find? sec) (show (Setting.table []).pairs = [] from rfl) key
        simp only [assignedAt, if_pos hs, Assignment.apply, Option.bind_some, find?_setAll, start]
        rfl
      | _ => cases table
    · simp only [assignedAt, if_neg hs]
      rfl
  | cons step way =>
    cases step with
    | key k =>
      by_cases hs : Text.lowercase s = sec
      · have start := find?_getD (root.find? sec) (show Setting.nil.pairs = [] from rfl) key
        simp only [assignedAt, if_pos hs, Option.bind_some]
        show ((((root.find? sec).getD .nil).setAt (.key k :: way) value).find? key) = _
        rw [find?_setAt, start]
        by_cases hk : Text.lowercase k = key
        · simp [hs, hk, assign]
        · simp [hk, assign]
      · simp only [assignedAt, hs, false_and, if_false]
        rfl
    | slot index =>
      have hs : ¬ Text.lowercase s = sec := by
        rintro rfl
        simp [keepsTables, mem] at keeps
      simp only [assignedAt, if_neg hs]
      rfl

theorem layer_sectioned {root source : Setting} (h : root.Tabular) (tables : source.sectioned) :
    (root.layer source).Tabular ∧ ∀ sec ∈ sections, ∀ key,
      (root.layer source).cell sec key = assign (root.cell sec key) (source.assigned sec key) := by
  unfold layer assigned
  unfold sectioned at tables
  generalize source.pairs = pairs at tables
  induction pairs generalizing root with
  | nil => exact ⟨h, fun _ _ _ => rfl⟩
  | cons p rest ih =>
    obtain ⟨name, value⟩ := p
    obtain ⟨s, way, hpath⟩ := exists_path_cons name
    simp only [List.all_cons, Bool.and_eq_true, hpath] at tables
    obtain ⟨tabular, cells⟩ := ih (h.setAt tables.1) tables.2
    simp only [List.foldl_cons, List.flatMap_cons, hpath]
    refine ⟨tabular, fun sec mem key => ?_⟩
    rw [cells sec mem key, cell_setAt mem key root tables.1, assign_append]

def stack (layers : List Setting) : Setting :=
  layers.foldr (fun source root => root.layer source) (.table [])

theorem stack_sectioned {layers : List Setting} (tables : ∀ source ∈ layers, source.sectioned) :
    (stack layers).Tabular ∧ ∀ sec ∈ sections, ∀ key,
      (stack layers).cell sec key = assign none (layers.reverse.flatMap (·.assigned sec key)) := by
  induction layers with
  | nil => exact ⟨⟨rfl, fun _ _ _ h => by cases h⟩, fun _ _ _ => rfl⟩
  | cons source rest ih =>
    obtain ⟨tabular, cells⟩ := ih fun s mem => tables s (List.mem_cons_of_mem _ mem)
    obtain ⟨tabular', cells'⟩ := layer_sectioned tabular (tables source List.mem_cons_self)
    refine ⟨tabular', fun sec mem key => ?_⟩
    show ((stack rest).layer source).cell sec key = _
    rw [cells' sec mem key, cells sec mem key, List.reverse_cons, List.flatMap_append, List.flatMap_singleton,
      assign_append]

/-! ## The assignment that counts -/

/-- What a source puts in the place of what other sources say about a key: its last assignment to it that sets
anything. -/
def override? (source : Setting) (sec key : String) : Option Setting :=
  ((source.assigned sec key).filter (!·.isIdle)).getLast?.map (·.given)

def first? (source : Setting) (sec key : String) : Option Setting :=
  (source.assigned sec key).head?.map (·.given)

/-- What the highest layer that overrides a key puts there. Where none does, the lowest that names the key at all
decides. -/
def selected (layers : List Setting) (sec key : String) : Option Setting :=
  layers.findSome? (·.override? sec key) <|> layers.reverse.findSome? (·.first? sec key)

structure Single {α : Type} (convert : Setting → Option α) : Prop where
  table : ∀ pairs, convert (.table pairs) = none
  list : ∀ items, convert (.list items) = none

section
variable {α : Type} {convert : Setting → Option α}

theorem Single.of_isTable (h : Single convert) {s : Setting} (table : s.isTable) : convert s = none := by
  cases s with
  | table pairs => exact h.table pairs
  | _ => cases table

theorem exists_putSlot (s : Setting) (index : Int) (change : Setting → Setting) :
    ∃ items, s.putSlot index change = .list items := by
  unfold putSlot
  split
  · exact ⟨_, rfl⟩
  · exact ⟨_, rfl⟩

theorem Single.of_step (h : Single convert) (step : Step) (way : List Step) (value : Setting)
    (old : Option Setting) : convert (Assignment.apply ⟨step :: way, value⟩ old) = none := by
  cases step with
  | key k => exact h.of_isTable (isTable_setAt _ k way value)
  | slot index =>
    obtain ⟨items, put⟩ := exists_putSlot (old.getD .nil) index fun old => old.setAt way value
    simp only [Assignment.apply, setAt, put, h.list]

/-- However a key was set before, an assignment that is not idle decides what it converts to. -/
theorem convert_apply (h : Single convert) (a : Assignment) (old : Option Setting) :
    convert (a.apply old) = convert (if a.isIdle then old.getD a.given else a.given) := by
  obtain ⟨way, value⟩ := a
  cases way with
  | nil =>
    cases value with
    | table pairs =>
      cases pairs with
      | nil => simp [Assignment.apply, Assignment.isIdle, Assignment.given, setAll]
      | cons p rest =>
        have table (old : Option Setting) : (Assignment.apply ⟨[], .table (p :: rest)⟩ old).isTable := by
          simp only [Assignment.apply, setAll, set_eq_put]
          exact isTable_setAll rfl rest
        exact (h.of_isTable (table old)).trans (h.of_isTable (table none)).symm
    | _ => rfl
  | cons step way => exact (h.of_step step way value old).trans (h.of_step step way value none).symm

theorem orDefault_assign (h : Single convert) (default : α) (old : Option Setting) (assignments : List Assignment) :
    orDefault default convert (assign old assignments) =
      orDefault default convert
        ((assignments.filter (!·.isIdle)).getLast?.map (·.given) <|> old <|> assignments.head?.map (·.given)) := by
  induction assignments generalizing old with
  | nil => cases old <;> rfl
  | cons a rest ih =>
    have step : assign old (a :: rest) = assign (some (a.apply old)) rest := rfl
    rw [step, ih]
    cases later : (rest.filter (!·.isIdle)).getLast? with
    | some b =>
      have last : ((a :: rest).filter (!·.isIdle)).getLast? = some b := by
        rw [List.filter_cons]
        split_ifs
        · rw [List.getLast?_cons, later, Option.getD_some]
        · exact later
      rw [last]
      rfl
    | none =>
      have idle : rest.filter (!·.isIdle) = [] := List.getLast?_eq_none_iff.mp later
      have applied := convert_apply h a old
      by_cases ha : a.isIdle
      · cases old <;> simp [ha, idle, orDefault, applied]
      · simp [ha, idle, orDefault, applied]

theorem override?_layers (layers : List Setting) (sec key : String) :
    ((layers.reverse.flatMap (·.assigned sec key)).filter (!·.isIdle)).getLast?.map (·.given) =
      layers.findSome? (·.override? sec key) := by
  induction layers with
  | nil => rfl
  | cons source rest ih =>
    rw [List.reverse_cons, List.flatMap_append, List.flatMap_singleton, List.filter_append, List.getLast?_append,
      List.findSome?_cons, ← ih, override?]
    cases ((source.assigned sec key).filter (!·.isIdle)).getLast? <;> rfl

theorem orDefault_cell (h : Single convert) (default : α) {layers : List Setting}
    (tables : ∀ source ∈ layers, source.sectioned) {sec : String} (mem : sec ∈ sections) (key : String) :
    orDefault default convert ((stack layers).cell sec key) =
      orDefault default convert (selected layers sec key) := by
  have first : (layers.reverse.flatMap (·.assigned sec key)).head?.map (·.given) =
      layers.reverse.findSome? (·.first? sec key) := by
    rw [List.head?_flatMap, List.map_findSome?]
    rfl
  rw [(stack_sectioned tables).2 sec mem key, orDefault_assign h, override?_layers, first]
  rfl

end

/-! ## Fields -/

theorem single_word32? : Single word32? :=
  ⟨fun _ => rfl, fun _ => rfl⟩

theorem single_word64? : Single (option? word64?) :=
  ⟨fun _ => rfl, fun _ => rfl⟩

theorem single_text? : Single text? :=
  ⟨fun _ => rfl, fun _ => rfl⟩

end Setting

open Setting

def Settings.ofCells? (cell : String → String → Option Setting) : Option Settings := do
  let framerate ← orDefault 30 word32? (cell "scheduler" "framerate")
  let transfers ← orDefault none (option? word64?) (cell "scheduler" "max_transfers_per_step")
  let ticks ← orDefault none (option? word64?) (cell "scheduler" "max_ticks")
  let filter ← orDefault "info" text? (cell "logging" "filter")
  return ⟨⟨framerate, transfers, ticks⟩, ⟨filter⟩⟩

section
variable {root : Setting} (h : root.Tabular)

include h in
theorem exists_pairs {sec : String} (mem : sec ∈ sections) :
    root.find? sec = none ∨ ∃ pairs, root.find? sec = some (.table pairs) := by
  cases found : root.find? sec with
  | none => exact .inl rfl
  | some s =>
    have table := h.sections sec mem s found
    cases s with
    | table pairs => exact .inr ⟨pairs, rfl⟩
    | _ => cases table

include h in
theorem SchedulerSettings.ofSetting?_cells :
    orDefault {} SchedulerSettings.ofSetting? (root.find? "scheduler") = do
      let framerate ← orDefault 30 word32? (root.cell "scheduler" "framerate")
      let transfers ← orDefault none (option? word64?) (root.cell "scheduler" "max_transfers_per_step")
      let ticks ← orDefault none (option? word64?) (root.cell "scheduler" "max_ticks")
      return ⟨framerate, transfers, ticks⟩ := by
  unfold cell
  rcases exists_pairs h (show "scheduler" ∈ sections by decide) with none | ⟨pairs, some⟩
  · rw [none]
    rfl
  · rw [some]
    rfl

include h in
theorem LoggingSettings.ofSetting?_cells :
    orDefault {} LoggingSettings.ofSetting? (root.find? "logging") = do
      let filter ← orDefault "info" text? (root.cell "logging" "filter")
      return ⟨filter⟩ := by
  unfold cell
  rcases exists_pairs h (show "logging" ∈ sections by decide) with none | ⟨pairs, some⟩
  · rw [none]
    rfl
  · rw [some]
    rfl

include h in
theorem Settings.ofSetting?_cells : Settings.ofSetting? root = Settings.ofCells? root.cell := by
  have sections : Settings.ofSetting? root = do
      let scheduler ← orDefault {} SchedulerSettings.ofSetting? (root.find? "scheduler")
      let logging ← orDefault {} LoggingSettings.ofSetting? (root.find? "logging")
      return ⟨scheduler, logging⟩ := by
    have table := h.isTable
    cases root with
    | table pairs => rfl
    | _ => cases table
  rw [sections, SchedulerSettings.ofSetting?_cells h, LoggingSettings.ofSetting?_cells h]
  simp only [Settings.ofCells?, Option.bind_eq_bind, Option.bind_assoc, Option.pure_def, Option.bind_some]

end

theorem Settings.ofSetting?_stack {layers : List Setting} (tables : ∀ source ∈ layers, source.sectioned) :
    Settings.ofSetting? (stack layers) = Settings.ofCells? (selected layers) := by
  rw [Settings.ofSetting?_cells (stack_sectioned tables).1, Settings.ofCells?, Settings.ofCells?]
  rw [orDefault_cell single_word32? 30 tables (by decide), orDefault_cell single_word64? none tables (by decide),
    orDefault_cell single_word64? none tables (by decide), orDefault_cell single_text? "info" tables (by decide)]

/-! ## Where layers come from -/

def FileFormat.Holds (file : FileFormat × String) (s : Setting) : Prop :=
  file.1.parse? (withoutMark file.2) = some s

/-- The layer of the file: the one asked for, else the one that the environment names, else the default one, which
need not be there. -/
inductive Host.FileGives (host : Host) : Option String → Setting → Prop where
  | asked {path : String} {file : FileFormat × String} {s : Setting}
      (found : host.findFile? path FileFormat.all (FileFormat.ofPath? path) = some file)
      (holds : FileFormat.Holds file s) : host.FileGives (some path) s
  | named {path : String} {file : FileFormat × String} {s : Setting}
      (named : host.environment.find? pathVariable = some path)
      (found : host.findFile? path FileFormat.all (FileFormat.ofPath? path) = some file)
      (holds : FileFormat.Holds file s) : host.FileGives none s
  | default {file : FileFormat × String} {s : Setting} (unnamed : host.environment.find? pathVariable = none)
      (found : host.findFile? defaultPath [.toml] (some .toml) = some file) (holds : FileFormat.Holds file s) :
      host.FileGives none s
  | missing (unnamed : host.environment.find? pathVariable = none)
      (missing : host.findFile? defaultPath [.toml] (some .toml) = none) :
      host.FileGives none (.table [])

inductive SettingsSources.InlineGives (sources : SettingsSources) : Setting → Prop where
  | text {text : String} {s : Setting} (given : sources.inline = some text) (reads : Toml.read? text = some s) :
      sources.InlineGives s
  | nothing (given : sources.inline = none) : sources.InlineGives (.table [])

def SettingsSources.layers (sources : SettingsSources) (environment : Environment) (file inline : Setting) :
    List Setting :=
  if sources.skipEnvironment then [inline, file] else [environmentLayer environment, inline, file]

theorem Host.FileGives.fileLayer_eq {host : Host} {path : Option String} {s : Setting} (h : host.FileGives path s) :
    host.fileLayer path = .ok s := by
  unfold Host.fileLayer
  cases h with
  | @asked path file _ found holds =>
    have chosen : (some path <|> host.environment.find? pathVariable) = some path := rfl
    have parsed : file.1.parse? (withoutMark file.2) = some s := holds
    simp only [chosen, found, parsed]
    rfl
  | @named path file _ named found holds =>
    have chosen : (none <|> host.environment.find? pathVariable) = some path := named
    have parsed : file.1.parse? (withoutMark file.2) = some s := holds
    simp only [chosen, found, parsed]
    rfl
  | @default file _ unnamed found holds =>
    have chosen : (none <|> host.environment.find? pathVariable) = none := unnamed
    have parsed : file.1.parse? (withoutMark file.2) = some s := holds
    simp only [chosen, found, parsed]
    rfl
  | missing unnamed missing =>
    have chosen : (none <|> host.environment.find? pathVariable) = none := unnamed
    simp only [chosen, missing]

theorem SettingsSources.InlineGives.inlineLayer_eq {sources : SettingsSources} {s : Setting}
    (h : sources.InlineGives s) : sources.inlineLayer = .ok s := by
  unfold SettingsSources.inlineLayer
  cases h with
  | text given reads =>
    simp only [given, reads]
    rfl
  | nothing given => rw [given]

theorem Host.settings_eq {host : Host} {sources : SettingsSources} {file inline : Setting}
    (hfile : host.FileGives sources.path file) (hinline : sources.InlineGives inline) :
    host.settings sources =
      (Settings.ofSetting? (stack (sources.layers host.environment file inline))).elim (.error .invalid) .ok := by
  unfold Host.settings SettingsSources.layers
  rw [hfile.fileLayer_eq, hinline.inlineLayer_eq]
  cases sources.skipEnvironment <;> rfl

structure Settings.SelectedFrom (layers : List Setting) (s : Settings) : Prop where
  framerate : orDefault 30 word32? (selected layers "scheduler" "framerate") = some s.scheduler.framerate
  transfers : orDefault none (option? word64?) (selected layers "scheduler" "max_transfers_per_step") =
    some s.scheduler.maxTransfers
  ticks : orDefault none (option? word64?) (selected layers "scheduler" "max_ticks") = some s.scheduler.maxTicks
  filter : orDefault "info" text? (selected layers "logging" "filter") = some s.logging.filter

inductive Settings.Unfit (layers : List Setting) : Prop where
  | framerate (h : orDefault 30 word32? (selected layers "scheduler" "framerate") = none)
  | transfers (h : orDefault none (option? word64?) (selected layers "scheduler" "max_transfers_per_step") = none)
  | ticks (h : orDefault none (option? word64?) (selected layers "scheduler" "max_ticks") = none)
  | filter (h : orDefault "info" text? (selected layers "logging" "filter") = none)

section
variable {layers : List Setting}

theorem Settings.ofCells?_eq_some {s : Settings} :
    Settings.ofCells? (selected layers) = some s ↔ s.SelectedFrom layers := by
  constructor
  · intro h
    simp only [Settings.ofCells?, Option.bind_eq_bind, Option.bind_eq_some_iff] at h
    obtain ⟨framerate, hframerate, transfers, htransfers, ticks, hticks, filter, hfilter, made⟩ := h
    cases made
    exact ⟨hframerate, htransfers, hticks, hfilter⟩
  · intro h
    simp only [Settings.ofCells?, h.framerate, h.transfers, h.ticks, h.filter]
    rfl

theorem Settings.ofCells?_eq_none : Settings.ofCells? (selected layers) = none ↔ Settings.Unfit layers := by
  constructor
  · intro h
    by_contra fit
    obtain ⟨framerate, hframerate⟩ := Option.ne_none_iff_exists'.mp fun h => fit (.framerate h)
    obtain ⟨transfers, htransfers⟩ := Option.ne_none_iff_exists'.mp fun h => fit (.transfers h)
    obtain ⟨ticks, hticks⟩ := Option.ne_none_iff_exists'.mp fun h => fit (.ticks h)
    obtain ⟨filter, hfilter⟩ := Option.ne_none_iff_exists'.mp fun h => fit (.filter h)
    have made : Settings.SelectedFrom layers ⟨⟨framerate, transfers, ticks⟩, ⟨filter⟩⟩ :=
      ⟨hframerate, htransfers, hticks, hfilter⟩
    rw [Settings.ofCells?_eq_some.mpr made] at h
    cases h
  · intro unfit
    cases made : Settings.ofCells? (selected layers) with
    | none => rfl
    | some s =>
      have fit := Settings.ofCells?_eq_some.mp made
      cases unfit with
      | framerate h => exact absurd (h.symm.trans fit.framerate) (by simp)
      | transfers h => exact absurd (h.symm.trans fit.transfers) (by simp)
      | ticks h => exact absurd (h.symm.trans fit.ticks) (by simp)
      | filter h => exact absurd (h.symm.trans fit.filter) (by simp)

end

/-- Layers override each other key by key. For any file that can be read, any text on the spot and any
environment in which sections are tables, each field is converted from what the highest layer that overrides
its key puts there, whatever the other keys are. There are no settings just when one of these does not
convert. -/
theorem layers_override (host : Host) (sources : SettingsSources) {file inline : Setting}
    (hfile : host.FileGives sources.path file) (hinline : sources.InlineGives inline)
    (tables : ∀ layer ∈ sources.layers host.environment file inline, layer.sectioned) :
    (∀ s, host.settings sources = .ok s ↔ s.SelectedFrom (sources.layers host.environment file inline)) ∧
    (∀ e, host.settings sources = .error e ↔
      e.message = "Invalid configuration" ∧ Settings.Unfit (sources.layers host.environment file inline)) := by
  rw [Host.settings_eq hfile hinline, Settings.ofSetting?_stack tables]
  simp only [← Settings.ofCells?_eq_some, ← Settings.ofCells?_eq_none]
  cases Settings.ofCells? (selected (sources.layers host.environment file inline)) with
  | none =>
    refine ⟨fun s => by simp, fun e => ?_⟩
    cases e with
    | invalid => exact iff_of_true rfl ⟨rfl, rfl⟩
    | unreadable => exact iff_of_false (by simp) fun h => absurd h.1 (by decide)
    | unwritable => exact iff_of_false (by simp) fun h => absurd h.1 (by decide)
  | some s => exact ⟨fun s' => by simp, fun e => by simp⟩

def Host.single (text : String) (environment : Environment) : Host :=
  ⟨fun path => if path = defaultPath then some text else none, environment⟩

theorem layers_override_three :
    let host := Host.single "[scheduler]\nframerate = \"fast\"\nmax_ticks = 7\n"
      ⟨[("CADENCE_LOGGING__FILTER", "debug")], by simp⟩
    let sources : SettingsSources :=
      { inline := some "scheduler = \x7b framerate = 60, max_ticks = \x7b\x7d \x7d\n[Logging]\nFilter = [0]\n" }
    host.settings sources =
      .ok { scheduler := { framerate := 60, maxTicks := some 7 }, logging := { filter := "debug" } } := by
  intro host sources
  have found : host.findFile? defaultPath [.toml] (some .toml) =
      some (.toml, "[scheduler]\nframerate = \"fast\"\nmax_ticks = 7\n") := rfl
  have file : host.FileGives none
      (.table [("scheduler", .table [("framerate", .text "fast"), ("max_ticks", .int 7)])]) :=
    .default rfl found (by unfold FileFormat.Holds; cbv)
  have inline : sources.InlineGives
      (.table [("scheduler", .table [("framerate", .int 60), ("max_ticks", .table [])]),
      ("Logging", .table [("Filter", .list [.int 0])])]) := .text rfl (by cbv)
  refine ((layers_override host sources file inline ?_).1 _).mpr ⟨?_, ?_, ?_, ?_⟩
  · decide +kernel
  · decide +kernel
  · decide +kernel
  · decide +kernel
  · decide +kernel

/-- The highest layer that names the framerate gives it an empty table, which is no number, and yet the
settings stand: nothing under the key is set anew, so the number of the file below stays. -/
theorem empty_table_overrides_nothing :
    Toml.read? "[scheduler]\nframerate = \x7b\x7d\n" =
      some (.table [("scheduler", .table [("framerate", .table [])])]) ∧
    word32? (.table []) = none ∧
    (Host.single "[scheduler]\nframerate = 60\n" .empty).settings
        { inline := some "[scheduler]\nframerate = \x7b\x7d\n", skipEnvironment := true } =
      .ok { scheduler := { framerate := 60 } } ∧
    (Host.single "" .empty).settings
        { inline := some "[scheduler]\nframerate = \x7b\x7d\n", skipEnvironment := true } =
      .error .invalid :=
  ⟨by cbv, rfl, by cbv, by cbv⟩

end BlockScript
