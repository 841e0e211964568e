import Grove.CommandLine.Layers
import Grove.Proofs.Canonical
import Grove.Proofs.Encoding
import Grove.Proofs.SettingReaders

/-!
# Which layer decides

A run takes its settings from layers: the file in the current directory, the files named, the
environment, the options. They are laid over each other key by key, so a key has the value that the
highest layer gives it, and the standard one where no layer gives it any. This needs that sections
are given as tables and lists as a whole: a layer may also put something else in the place of a
section, or set one place of a list. No order is promised among the entries of one layer; they are taken
as they are listed, and the listing may be any.

## What is proved

* `shown_of_laid` — under a key settings show what the highest layer gives it.
* `entries_here` — a file of settings that holds a text is read as the text.
* `layers_eq`, `given?_overrides` — above all other layers stands what the options give, where the
  level of the console counts for the log file unless that has its own.
* `load_iff` — the layers of a run.
* `settings_layered` — the layers of a run decide in their order.
* `settings_not_layered` — runs where a layer changes more than the keys it gives, or less.
-/

namespace Grove

namespace Settings

open KeyPath Value

/-! ### Layers over each other -/

/-- What the value of a key makes of settings that show nothing else. -/
def Shows (s : Settings) (group key : String) (v? : Option Value) : Prop :=
  match v? with
  | none => s.shown group key = standard.shown group key
  | some v => ∃ alone, ofValue (.table [(group, .table [(key, v)])]) = .ok alone ∧
      s.shown group key = alone.shown group key

/-- What a value shows is determined by the value. -/
theorem Shows.shown_eq {s t : Settings} {group key : String} {v? : Option Value}
    (hs : s.Shows group key v?) (ht : t.Shows group key v?) :
    t.shown group key = s.shown group key := by
  cases v? with
  | none => exact Eq.trans ht (Eq.symm hs)
  | some v =>
    obtain ⟨alone, halone, hs⟩ := hs
    obtain ⟨alone', halone', ht⟩ := ht
    obtain rfl := Except.ok.inj (halone.symm.trans halone')
    exact ht.trans hs.symm

/-- Under a key settings show what the highest layer gives it. -/
theorem shown_of_laid {layers : List (List (KeyPath × Value))} {s : Settings}
    (hread : ofValue (laid (.table []) layers.flatten) = .ok s) {group key : String}
    (hlayers : ∀ layer ∈ layers, ∀ a ∈ layer, Regular group key a = true) :
    s.Shows group key (layers.reverse.findSome? (given? group key)) := by
  have hregular : ∀ a ∈ layers.flatten, Regular group key a = true := by
    intro a ha
    obtain ⟨layer, hlayer, ha⟩ := List.mem_flatten.1 ha
    exact hlayers layer hlayer a ha
  obtain ⟨es, hes, horderly⟩ := exists_laid layers.flatten
  have htables : ∀ v, (laid (.table []) layers.flatten).entries.lookup group = some v →
      v.isTable = true := isTable_sectionOf_laid (by simp) hregular
  have hheld : Held (slot group key (laid (.table []) layers.flatten))
      ((given? group key layers.flatten).or none) := held_laid (.inr rfl) hregular
  rw [hes] at hread htables hheld
  have hshown := shown_of_ofValue horderly hread htables key
  rw [Option.or_none, given?_flatten] at hheld
  rcases hheld with ⟨v, hslot, htable⟩ | hslot
  · -- a key with a table for its value is not read
    rw [hslot] at hshown
    obtain ⟨alone, halone, -⟩ := hshown
    rw [isTable_of_ofValue_single halone] at htable
    simp at htable
  · rw [hslot] at hshown
    cases hdecides : layers.reverse.findSome? (given? group key) with
    | none =>
      rw [hdecides] at hshown
      exact hshown
    | some v =>
      rw [hdecides] at hshown
      exact hshown

/-! ### The layers of a run -/

/-- What a list of keys with their values assigns. -/
def assigned (es : List (String × Value)) : List (KeyPath × Value) :=
  es.map fun (key, v) => (topKey key, v)

/-- The layer of a source. -/
def Source.layer (files : Files) (source : Source) :
    Except SettingsFault (List (KeyPath × Value)) :=
  (source.entries files).map assigned

/-- The layer of the environment. -/
def variableLayer (environment : List (String × String)) : List (KeyPath × Value) :=
  assigned (variableEntries variableWord environment)

theorem mapM_layer (files : Files) (sources : List Source) :
    sources.mapM (Source.layer files) =
      (sources.mapM (Source.entries files)).map (·.map assigned) := by
  induction sources with
  | nil => rfl
  | cons source rest ih =>
    rw [List.mapM_cons, List.mapM_cons, ih, Source.layer]
    cases source.entries files with
    | error e => rfl
    | ok es => cases rest.mapM (Source.entries files) <;> rfl

/-- The values of all layers are those of the sources, of the environment and set by hand. -/
theorem assignments_eq_ok_iff {l : Layers} {host : Host} {all : List (KeyPath × Value)} :
    l.assignments host = .ok all ↔ ∃ layers, l.sources.mapM (Source.layer host.files) = .ok layers ∧
      all = layers.flatten ++ assigned (l.variables?.elim [] fun word =>
        variableEntries word host.environment) ++ l.overrides := by
  rw [Layers.assignments, mapM_layer]
  cases l.sources.mapM (Source.entries host.files) with
  | error e => simp [bind, Except.bind, Except.map]
  | ok es =>
    simp only [bind, Except.bind, pure, Except.pure, Except.map, Except.ok.injEq, exists_eq_left',
      assigned, List.map_append, List.map_flatten]
    exact eq_comm

theorem load_eq_ok_iff {l : Layers} {host : Host} {s : Settings} :
    l.load host = .ok s ↔
      ∃ all, l.assignments host = .ok all ∧ ofValue (laid (.table []) all) = .ok s := by
  have hload : l.load host = .ok s ↔ l.settings host = .ok s := by
    rw [Layers.load]
    cases l.settings host <;> simp
  rw [hload, Layers.settings, except_bind_eq_ok]
  rfl

/-! ### Values set by hand -/

/-- A key of a section with the value that an option gives it, if the option is given. -/
structure Flag where
  /-- The section. -/
  group : String
  /-- The key. -/
  key : String
  /-- The value, if the option is given. -/
  value? : Option Value

namespace Flag

/-- Adds the value of an option. -/
def onto (l : Layers) (f : Flag) : Layers :=
  l.setIf (.ofSection f.group f.key) f.value?

/-- The value that an option gives a key. -/
def gives? (group key : String) (f : Flag) : Option Value :=
  if f.group = group ∧ f.key = key then f.value? else none

/-- An option whose value is not a table. -/
def Plain (f : Flag) : Prop :=
  ∀ v, f.value? = some v → v.isTable = false

theorem plain_map {α : Type} (group key : String) {f : α → Value}
    (hf : ∀ x, (f x).isTable = false) (x? : Option α) : Plain ⟨group, key, x?.map f⟩ := by
  rintro v hv
  obtain ⟨x, -, rfl⟩ := Option.map_eq_some_iff.1 hv
  exact hf x

theorem plain_whenGiven (group key : String) (given : Bool) {v : Value} (h : v.isTable = false) :
    Plain ⟨group, key, CommandLine.whenGiven given v⟩ := by
  cases given <;> simp [Plain, CommandLine.whenGiven, h]

theorem given?_onto {l : Layers} {f : Flag} (hf : f.Plain) (group key : String) :
    given? group key (f.onto l).overrides =
      (f.gives? group key).or (given? group key l.overrides) := by
  obtain ⟨group', key', value?⟩ := f
  cases value? with
  | none => simp [onto, gives?, Layers.setIf]
  | some v =>
    have hone : given? group key [(.ofSection group' key', v)] =
        gives? group key ⟨group', key', some v⟩ := by
      by_cases hgroup : group' = group <;> by_cases hkey : key' = key <;>
        simp [given?, keysGiven, last?, gives?, ofSection, hgroup, hkey, hf v rfl]
    rw [onto, Layers.setIf, Option.elim_some, Layers.set, given?_append, hone]

/-- Of values set by hand for a key the last counts. -/
theorem given?_foldl {flags : List Flag} (hflags : ∀ f ∈ flags, f.Plain) (l : Layers)
    (group key : String) :
    given? group key (flags.foldl onto l).overrides =
      (flags.reverse.findSome? (gives? group key)).or (given? group key l.overrides) := by
  induction flags generalizing l with
  | nil => rfl
  | cons f rest ih =>
    obtain ⟨hf, hrest⟩ := List.forall_mem_cons.1 hflags
    rw [List.foldl_cons, ih hrest, given?_onto hf, List.reverse_cons, List.findSome?_append,
      Option.or_assoc]
    simp

/-- What holds of the values set by hand and of those that options give holds with both. -/
theorem forall_foldl {P : KeyPath × Value → Prop} {flags : List Flag} {l : Layers}
    (hflags : ∀ f ∈ flags, ∀ v, f.value? = some v → P (.ofSection f.group f.key, v))
    (hl : ∀ x ∈ l.overrides, P x) : ∀ x ∈ (flags.foldl onto l).overrides, P x := by
  induction flags generalizing l with
  | nil => exact hl
  | cons f rest ih =>
    obtain ⟨hf, hrest⟩ := List.forall_mem_cons.1 hflags
    refine ih hrest ?_
    rw [onto, Layers.setIf]
    cases hvalue : f.value? with
    | none => exact hl
    | some v => exact List.forall_mem_append.2 ⟨hl, List.forall_mem_singleton.2 (hf v hvalue)⟩

theorem kept_foldl (flags : List Flag) (l : Layers) :
    (flags.foldl onto l).sources = l.sources ∧ (flags.foldl onto l).variables? = l.variables? := by
  induction flags generalizing l with
  | nil => exact ⟨rfl, rfl⟩
  | cons f rest ih =>
    obtain ⟨hsources, hvariables⟩ := ih (f.onto l)
    rw [List.foldl_cons, hsources, hvariables]
    obtain ⟨group, key, value?⟩ := f
    cases value? <;> exact ⟨rfl, rfl⟩

end Flag

/-! ### Files in the current directory -/

section

variable {files : Files} {es : List (String × Node)}
  (hhere : files.top.get? files.here = some (.directory es))

include hhere

/-- A name leads to the entry of the current directory. -/
theorem node_here {name : String} (hname : Files.isUsable name = true)
    (hlink : ∀ target, es.lookup name ≠ some (.link target)) :
    files.node (.ofString name) = (es.lookup name).elim (.error .notFound) .ok := by
  have hisName := Files.isName_of_isUsable hname
  have hcomponents : (Path.mk [name]).components = [.name name] :=
    @Path.components_concat [] name hisName (by simp)
  have habsolute : (Path.mk [name]).isAbsolute = false := by
    rw [Path.isAbsolute, hcomponents]
    rfl
  rw [Path.ofString_of_isName hisName, Files.node, Files.place, if_neg (by simp [hcomponents]),
    habsolute, if_neg Bool.false_ne_true, Files.follow_entry hname hhere hlink, Files.follow]
  cases hentry : es.lookup name with
  | none =>
    have hnone : files.top.get? (files.here ++ [name]) = none := by
      rw [Node.get?_append, hhere]
      simp [Node.get?, hentry]
    simp [bind, Except.bind, hnone]
  | some n => simp [bind, Except.bind, Node.get?_concat hhere hentry]

/-- A file in the current directory that holds a text is read as the text. -/
theorem entries_here {name text : String} {executable : Bool} (hname : Files.isUsable name = true)
    (hfile : es.lookup name = some (.file text.toUTF8 executable)) :
    (Source.file (.ofString name)).entries files =
      Source.ofText (Path.ofString name).shown text := by
  have hnode := node_here hhere hname (by simp [hfile])
  rw [hfile, Option.elim_some] at hnode
  have hfound : files.isFile (.ofString name) = true := by rw [Files.isFile, hnode]; rfl
  have hread : files.read (.ofString name) = .ok text.toUTF8 := by rw [Files.read, hnode]; rfl
  have hcontent : Source.content? files (.ofString name) = some text := by
    rw [Source.content?, Source.find?, if_pos hfound]
    simp only [bind, Option.bind_some, hread, Except.toOption, pure, Text.decode_toUTF8,
      String.ofList_toList]
  rw [Source.entries, hcontent]

/-- The file of settings in the current directory may be missing. -/
theorem entries_localFile (hnone : es.lookup "cactus.toml" = none)
    (hnone' : es.lookup "cactus.toml.toml" = none) :
    (Source.optional localFile).entries files = .ok [] := by
  have hmissing : ∀ name, Files.isUsable name = true → es.lookup name = none →
      files.isFile (.ofString name) = false := by
    intro name hname hnone
    rw [Files.isFile, node_here hhere hname (by simp [hnone]), hnone]
    rfl
  have hfind : Source.find? files localFile = none := by
    have hlonger : Path.child ⟨[""]⟩ ("cactus.toml" ++ Source.ending) =
        .ofString "cactus.toml.toml" := by decide
    have hname : localFile.fileName? = some "cactus.toml" := by decide
    have hparent : localFile.parent? = some ⟨[""]⟩ := by decide
    rw [Source.find?, localFile, hmissing _ (by decide) hnone, if_neg Bool.false_ne_true,
      ← localFile, hname, hparent]
    simp only [hlonger, Option.filter_some, hmissing _ (by decide) hnone']
    rfl
  rw [Source.entries, Source.content?, hfind]
  rfl

end

end Settings

namespace CommandLine

open Settings (Flag Value Layers Source given? variableLayer load_eq_ok_iff assignments_eq_ok_iff)

/-! ### The options of a run -/

/-- What the options of every command give. The level of the console counts for the log file unless
that has its own. -/
def GlobalArguments.flags (a : GlobalArguments) : List Flag :=
  [⟨"global", "output_log_level", a.logLevel?.map fun (n : Nat) => .integer n⟩,
    ⟨"global", "file_log_level",
      (a.fileLogLevel?.or a.logLevel?).map fun (n : Nat) => .integer n⟩,
    ⟨"global", "log_file", a.logFile?.map fun p => .text p.shown⟩,
    ⟨"global", "pretend", whenGiven a.pretend (.flag true)⟩]

/-- What the options that select checkouts give. -/
def ScopeArguments.flags (a : ScopeArguments) : List Flag :=
  [⟨"scope", "scope", a.scope?.map .text⟩, ⟨"scope", "family", a.family?.map .text⟩,
    ⟨"scope", "include_root", a.includeRoot?.map .flag⟩]

/-- What the options of a command give. An option that switches something off or on has no
opposite. -/
def Command.flags : Command → List Flag
  | checkouts a => a.scope.flags
  | merge a => a.scope.flags ++
      [⟨"merge", "into", a.into?.map .text⟩, ⟨"merge", "tag", whenGiven a.noTag (.flag false)⟩,
        ⟨"merge", "delete_merged", whenGiven a.deleteMerged (.flag true)⟩,
        ⟨"merge", "push", whenGiven a.push (.flag true)⟩,
        ⟨"merge", "require_clean", whenGiven a.requireClean (.flag true)⟩]
  | docs a =>
      [⟨"docs", "update_readme", a.updateReadme?.map .flag⟩,
        ⟨"docs", "overwrite_resources", a.overwriteResources?.map .flag⟩,
        ⟨"docs", "commit_changes", whenGiven a.commitChanges (.flag true)⟩]
  | codeflowers a => a.scope.flags ++
      [⟨"codeflowers", "indent", whenGiven a.indent (.flag true)⟩,
        ⟨"codeflowers", "tolerate_version_inconsistencies",
          a.tolerated?.map fun s => .list ((Text.entries s).map .text)⟩,
        ⟨"scan", "threads", a.threads?.map fun (n : Nat) => .integer n⟩]
  | _ => []

theorem foldl_addSource (files : List Path) (l : Layers) :
    files.foldl (fun l p => l.addSource (.file p)) l =
      { l with sources := l.sources ++ files.map .file } := by
  induction files generalizing l with
  | nil => simp
  | cons p rest ih =>
    rw [List.foldl_cons, ih, Layers.addSource]
    simp

theorem plain_scopeFlags (a : ScopeArguments) : ∀ f ∈ a.flags, f.Plain := by
  simp only [ScopeArguments.flags, List.forall_mem_cons]
  exact ⟨Flag.plain_map _ _ (fun _ => rfl) _, Flag.plain_map _ _ (fun _ => rfl) _,
    Flag.plain_map _ _ (fun _ => rfl) _, List.forall_mem_nil _⟩

theorem plain_globalFlags (a : GlobalArguments) : ∀ f ∈ a.flags, f.Plain := by
  simp only [GlobalArguments.flags, List.forall_mem_cons]
  exact ⟨Flag.plain_map _ _ (fun _ => rfl) _, Flag.plain_map _ _ (fun _ => rfl) _,
    Flag.plain_map _ _ (fun _ => rfl) _, Flag.plain_whenGiven _ _ _ rfl, List.forall_mem_nil _⟩

theorem Command.plain_flags (c : Command) : ∀ f ∈ c.flags, f.Plain := by
  cases c with
  | checkouts a => exact plain_scopeFlags a.scope
  | merge a =>
    refine List.forall_mem_append.2 ⟨plain_scopeFlags a.scope, ?_⟩
    simp only [List.forall_mem_cons]
    exact ⟨Flag.plain_map _ _ (fun _ => rfl) _, Flag.plain_whenGiven _ _ _ rfl,
      Flag.plain_whenGiven _ _ _ rfl, Flag.plain_whenGiven _ _ _ rfl,
      Flag.plain_whenGiven _ _ _ rfl, List.forall_mem_nil _⟩
  | docs a =>
    simp only [flags, List.forall_mem_cons]
    exact ⟨Flag.plain_map _ _ (fun _ => rfl) _, Flag.plain_map _ _ (fun _ => rfl) _,
      Flag.plain_whenGiven _ _ _ rfl, List.forall_mem_nil _⟩
  | codeflowers a =>
    refine List.forall_mem_append.2 ⟨plain_scopeFlags a.scope, ?_⟩
    simp only [List.forall_mem_cons]
    exact ⟨Flag.plain_whenGiven _ _ _ rfl, Flag.plain_map _ _ (fun _ => rfl) _,
      Flag.plain_map _ _ (fun _ => rfl) _, List.forall_mem_nil _⟩
  | _ => exact List.forall_mem_nil _

namespace Arguments

/-- What the options of a command line give. -/
def flags (a : Arguments) : List Flag :=
  a.global.flags ++ a.command?.elim [] Command.flags

/-- The value that the options of a command line give a key. -/
def flag? (a : Arguments) (group key : String) : Option Value :=
  a.flags.reverse.findSome? (Flag.gives? group key)

theorem plain_flags (a : Arguments) : ∀ f ∈ a.flags, f.Plain := by
  refine List.forall_mem_append.2 ⟨plain_globalFlags a.global, ?_⟩
  cases a.command? with
  | none => exact List.forall_mem_nil _
  | some c => exact c.plain_flags

/-- The layers of a command line: the file in the current directory and the files named, then the
environment, then the options. -/
theorem layers_eq (a : Arguments) :
    a.layers = a.flags.foldl Flag.onto
      ⟨.optional Settings.localFile :: a.global.settingsFiles.map .file,
        some Settings.variableWord, []⟩ := by
  obtain ⟨global, command?⟩ := a
  have hglobal : ∀ l, global.onto l = global.flags.foldl Flag.onto
      { l with sources := l.sources ++ global.settingsFiles.map .file } := by
    intro l
    obtain ⟨files, pretend, logLevel?, fileLogLevel?, logFile?, project?⟩ := global
    rw [GlobalArguments.onto, foldl_addSource]
    cases logLevel? <;> cases fileLogLevel? <;> rfl
  have hcommand : ∀ (c : Command) l, c.onto l = c.flags.foldl Flag.onto l := by
    intro c l
    cases c with
    | codeflowers a =>
      obtain ⟨scope, families?, tolerated?, indent, threads?, skip⟩ := a
      cases threads? <;> rfl
    | _ => rfl
  rw [layers, onto, flags, List.foldl_append]
  cases command? with
  | none => exact hglobal _
  | some c => rw [Option.elim_some, Option.elim_some, hcommand, hglobal]; rfl

/-- Above all other layers stands what the options give. -/
theorem given?_overrides (a : Arguments) (group key : String) :
    given? group key a.layers.overrides = a.flag? group key := by
  rw [layers_eq, Flag.given?_foldl a.plain_flags]
  exact Option.or_none

theorem regular_overrides (a : Arguments) (group key : String) :
    ∀ x ∈ a.layers.overrides, Settings.Regular group key x = true := by
  rw [layers_eq]
  exact Flag.forall_foldl (fun _ _ _ _ => ite_self true) (List.forall_mem_nil _)

/-- The layers of a command line come from the file in the current directory, the files named, the
environment and what the options give. -/
theorem layers_eta (a : Arguments) :
    a.layers = ⟨.optional Settings.localFile :: a.global.settingsFiles.map .file,
      some Settings.variableWord, a.layers.overrides⟩ := by
  have hkept := Flag.kept_foldl a.flags ⟨.optional Settings.localFile ::
    a.global.settingsFiles.map .file, some Settings.variableWord, []⟩
  rw [← layers_eq] at hkept
  generalize a.layers = l at hkept ⊢
  obtain ⟨sources, variables?, overrides⟩ := l
  obtain ⟨rfl, rfl⟩ := hkept
  rfl

/-- The layers that settings are loaded from, the lowest first. -/
theorem load_iff {a : Arguments} {host : Host} {s : Settings} :
    a.layers.load host = .ok s ↔
      ∃ here named, (Source.optional Settings.localFile).layer host.files = .ok here ∧
        a.global.settingsFiles.mapM (fun p => (Source.file p).layer host.files) = .ok named ∧
        Settings.ofValue (Settings.laid (.table [])
          (here :: named ++ [variableLayer host.environment, a.layers.overrides]).flatten) =
            .ok s := by
  have hlayers : ∀ layers,
      (Source.optional Settings.localFile :: a.global.settingsFiles.map .file).mapM
        (Source.layer host.files) = .ok layers ↔
      ∃ here named, (Source.optional Settings.localFile).layer host.files = .ok here ∧
        a.global.settingsFiles.mapM (fun p => (Source.file p).layer host.files) = .ok named ∧
        here :: named = layers := by
    intro layers
    rw [List.mapM_cons, List.mapM_map]
    simp only [Settings.except_bind_eq_ok, pure, Except.pure, Except.ok.injEq, exists_and_left]
    rfl
  rw [load_eq_ok_iff]
  simp only [assignments_eq_ok_iff]
  rw [layers_eta]
  constructor
  · rintro ⟨_, ⟨layers, hmap, rfl⟩, hread⟩
    obtain ⟨here, named, hhere, hnamed, rfl⟩ := (hlayers layers).1 hmap
    exact ⟨here, named, hhere, hnamed, by simpa [variableLayer] using hread⟩
  · rintro ⟨here, named, hhere, hnamed, hread⟩
    exact ⟨_, ⟨_, (hlayers _).2 ⟨here, named, hhere, hnamed, rfl⟩, rfl⟩,
      by simpa [variableLayer] using hread⟩

/-- **Which layer decides.** When settings can be loaded for a command line, a key has the value
that the highest layer gives it, as if nothing else were said: the options, then the environment,
then the files named, the last one first, then the file in the current directory; and the standard
value where no layer gives it any. A layer that gives it no value can be left out. This holds of
every key whose section all layers give as a table, and of which no layer sets a place in a list. A
layer gives a key what its entries yield in the order of their listing, whichever that is. -/
theorem settings_layered {a : Arguments} {host : Host} {s : Settings}
    (hload : a.layers.load host = .ok s) :
    ∃ here named, (Source.optional Settings.localFile).layer host.files = .ok here ∧
      a.global.settingsFiles.mapM (fun p => (Source.file p).layer host.files) = .ok named ∧
      let around := variableLayer host.environment
      ∀ group key, (∀ layer ∈ here :: named ++ [around], ∀ x ∈ layer,
          Settings.Regular group key x = true) →
        s.Shows group key ((a.flag? group key).or
          ((around :: named.reverse ++ [here]).findSome? (given? group key))) ∧
        ∀ lower layer upper,
          here :: named ++ [around, a.layers.overrides] = lower ++ layer :: upper →
          given? group key layer = none →
          ∀ t, Settings.ofValue (Settings.laid (.table []) (lower ++ upper).flatten) = .ok t →
            t.shown group key = s.shown group key := by
  obtain ⟨here, named, hhere, hnamed, hread⟩ := load_iff.1 hload
  refine ⟨here, named, hhere, hnamed, fun group key hregular => ?_⟩
  have hall : ∀ layer ∈ here :: named ++ [variableLayer host.environment, a.layers.overrides],
      ∀ x ∈ layer, Settings.Regular group key x = true := by
    intro layer hlayer
    rw [← List.singleton_append (l := [a.layers.overrides]), ← List.append_assoc] at hlayer
    rcases List.mem_append.1 hlayer with hlayer | hlayer
    · exact hregular layer hlayer
    · rw [List.mem_singleton.1 hlayer]
      exact a.regular_overrides group key
  have hshows := Settings.shown_of_laid hread hall
  refine ⟨?_, fun lower layer upper hlayers hnone t ht => ?_⟩
  · have horder : (here :: named ++ [variableLayer host.environment, a.layers.overrides]).reverse =
        a.layers.overrides :: (variableLayer host.environment :: named.reverse ++ [here]) := by
      simp
    rw [horder, List.findSome?_cons, given?_overrides] at hshows
    cases hflag : a.flag? group key with
    | none =>
      rw [hflag] at hshows
      exact hshows
    | some v =>
      rw [hflag] at hshows
      exact hshows
  · rw [hlayers] at hshows hall
    have hrest := Settings.shown_of_laid ht fun layer' hlayer' => hall layer'
      (List.mem_append.2 ((List.mem_append.1 hlayer').imp_right (List.mem_cons_of_mem _)))
    have hsame : (lower ++ layer :: upper).reverse.findSome? (given? group key) =
        (lower ++ upper).reverse.findSome? (given? group key) := by
      simp [List.findSome?_append, hnone]
    rw [hsame] at hshows
    exact hshows.shown_eq hrest

/-- A machine with these variables, and with files of these names and texts in the current
directory. -/
def sampleHost (environment texts : List (String × String)) : Host :=
  { (default : Host) with
    files := ⟨.directory (texts.map fun (name, text) => (name, .file text.toUTF8 false)), []⟩
    environment }

/-- The command line that lists all checkouts under the settings of these files. -/
def listing (names : List String) : Arguments :=
  ⟨⟨names.map .ofString, false, none, none, none, none⟩,
    some (.checkouts ⟨⟨some "all", none, none⟩, false⟩)⟩

theorem settings_layered_listing :
    ∃ s, (listing []).layers.load (sampleHost [("CACTUS_MERGE__INTO", "main")] []) = .ok s ∧
      s.Shows "merge" "into" (some (.text "main")) ∧ s.Shows "scope" "scope" (some (.text "all")) ∧
      s.Shows "scope" "include_root" none := by
  have hlocal : (Source.optional Settings.localFile).entries
      (sampleHost [("CACTUS_MERGE__INTO", "main")] []).files = .ok [] :=
    Settings.entries_localFile rfl rfl rfl
  have hload : (listing []).layers.load (sampleHost [("CACTUS_MERGE__INTO", "main")] []) =
      .ok { Settings.standard with
        scope := ⟨.all, true, none⟩, merge := ⟨"main", true, false, false, false⟩ } := by
    rw [layers_eta, Layers.load, Layers.settings, Layers.assignments, List.mapM_cons, hlocal]
    decide +kernel
  obtain ⟨here, named, hhere, hnamed, hkeys⟩ := settings_layered hload
  rw [Source.layer, hlocal] at hhere
  obtain rfl := Except.ok.inj hhere
  obtain rfl := Except.ok.inj hnamed
  exact ⟨_, hload, (hkeys "merge" "into" (by decide +kernel)).1,
    (hkeys "scope" "scope" (by decide +kernel)).1,
    (hkeys "scope" "include_root" (by decide +kernel)).1⟩

/-- A value for a section changes a key that it does not give, since options for the section make a
table of it that has forgotten the files below. A value for a place of a list keeps the other
places. -/
theorem settings_not_layered :
    let host := sampleHost [] [("a.toml", "[scope]\ninclude_root = false\n"),
      ("b.toml", "scope = \"all\"\n"), ("c.toml", "[docs]\nargs = [\"-v\", \"-x\"]\n"),
      ("d.toml", "\"docs.args[0]\" = \"-q\"\n")]
    (∃ s, (listing ["a.toml"]).layers.load host = .ok s ∧ s.scope.includeRoot = false) ∧
      (∃ s, (listing ["a.toml", "b.toml"]).layers.load host = .ok s ∧
        s.scope.includeRoot = true) ∧
      (∃ s, (listing ["d.toml"]).layers.load host = .ok s ∧ s.docs.arguments = ["-q"]) ∧
      ∃ s, (listing ["c.toml", "d.toml"]).layers.load host = .ok s ∧
        s.docs.arguments = ["-q", "-x"] := by
  intro host
  have hlocal : (Source.optional Settings.localFile).entries host.files = .ok [] :=
    Settings.entries_localFile rfl rfl rfl
  have ha : (Source.file (.ofString "a.toml")).entries host.files = Source.ofText _ _ :=
    Settings.entries_here rfl (by decide) rfl
  have hb : (Source.file (.ofString "b.toml")).entries host.files = Source.ofText _ _ :=
    Settings.entries_here rfl (by decide) rfl
  have hc : (Source.file (.ofString "c.toml")).entries host.files = Source.ofText _ _ :=
    Settings.entries_here rfl (by decide) rfl
  have hd : (Source.file (.ofString "d.toml")).entries host.files = Source.ofText _ _ :=
    Settings.entries_here rfl (by decide) rfl
  refine ⟨⟨{ Settings.standard with scope := ⟨.all, false, none⟩ }, ?_, rfl⟩,
    ⟨{ Settings.standard with scope := ⟨.all, true, none⟩ }, ?_, rfl⟩,
    ⟨{ Settings.standard with
        scope := ⟨.all, true, none⟩
        docs := { Settings.standard.docs with arguments := ["-q"] } }, ?_, rfl⟩,
    ⟨{ Settings.standard with
        scope := ⟨.all, true, none⟩
        docs := { Settings.standard.docs with arguments := ["-q", "-x"] } }, ?_, rfl⟩⟩
  all_goals
    rw [layers_eta, Layers.load, Layers.settings, Layers.assignments]
    simp only [listing, List.map_cons, List.map_nil, List.mapM_cons, hlocal, ha, hb, hc, hd]
    decide +kernel

end Arguments

end CommandLine

end Grove
