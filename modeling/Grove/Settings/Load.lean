import Grove.Host
import Grove.Settings.Basic
import Grove.Settings.Toml
import Grove.Text.Utf8

/-!
# Loading settings

Settings come in layers. The sources (texts and files) are laid over each other in their order, then
the variables of the environment, then single values set by hand. Each layer replaces what it says
and keeps the rest.

No order is promised among the entries of one source, nor among the variables. They are taken here as
the source and the environment list them, which tells only where two of them are about one key: a key
and the section it is in, say, or two variables whose names differ in case. What is proved of settings
holds of every listing.
-/

namespace Grove

namespace Settings

/-- A source of settings. -/
inductive Source where
  /-- A text. -/
  | text (content : String)
  /-- A file that must be there. -/
  | file (path : Path)
  /-- A file that may be missing. -/
  | optional (path : Path)
  deriving DecidableEq

/-- The layers that settings are loaded from. -/
structure Layers where
  /-- The sources, lowest first. -/
  sources : List Source
  /-- The word that names of environment variables start with, if the environment counts. -/
  variables? : Option String
  /-- Single values, which count most. -/
  overrides : List (KeyPath × Value)

namespace Source

/-- The ending that a file's name may lack. -/
def ending : String := ".toml"

/-- The file that a source names: the path itself, or the path with the ending. -/
def find? (files : Files) (p : Path) : Option Path :=
  if files.isFile p then some p
  else
    match p.fileName?, p.parent? with
    | some name, some parent =>
      some (parent.child (name ++ ending)) |>.filter files.isFile
    | _, _ => none

/-- The entries of a text. -/
def ofText (name content : String) : Except SettingsFault (List (String × Value)) :=
  match Toml.read? content with
  | some es => .ok es
  | none => .error (.malformed name)

/-- The text of a file, where bytes that are not text are replaced. -/
def content? (files : Files) (p : Path) : Option String := do
  let p ← find? files p
  let bytes ← (files.read p).toOption
  return String.ofList (Text.decode bytes)

/-- The entries of a source, as it lists them; no order is promised among them. -/
def entries (files : Files) : Source → Except SettingsFault (List (String × Value))
  | text content => ofText "<string>" content
  | file p =>
    match content? files p with
    | some content => ofText p.shown content
    | none => .error (.missing p.shown)
  | optional p =>
    match content? files p with
    | some content => ofText p.shown content
    | none => .ok []

/-- How the source is listed; a file that may be missing and is gets no mention. -/
def mention? (files : Files) : Source → Option String
  | text _ => some "[string] <string>"
  | file p => some ("[file] " ++ p.shown)
  | optional p => if files.holds p then some ("[optional] " ++ p.shown) else none

end Source

/-- A key as it stands at the top of a source: a path if it reads as one, else the plain key. -/
def topKey (key : String) : KeyPath :=
  (KeyPath.ofString? key).getD ⟨key, []⟩

/-- The keys whose variables hold lists. -/
def listKeys : List String :=
  ["docs.args", "codeflowers.tolerate_version_inconsistencies"]

/-- The value of an environment variable: a truth value or a number if it reads as one, else a list
for the keys that hold lists, else a text. -/
def variableValue (key text : String) : Value :=
  let cs := text.toList
  if Value.lower text = "true" then .flag true
  else if Value.lower text = "false" then .flag false
  else
    match (Decimal.int? cs).filter Decimal.isSigned with
    | some n => .integer n
    | none =>
      match Decimal.float? cs with
      | some x => .real x
      | none =>
        if key ∈ listKeys then .list ((Text.splitString ',' text).map .text) else .text text

/-- The text with a point for every two underscores. -/
def pointed : List Char → List Char
  | [] => []
  | '_' :: '_' :: rest => '.' :: pointed rest
  | c :: rest => c :: pointed rest

/-- The key of an environment variable, if its name starts with the word and an underscore. Case does
not matter, and two underscores separate section and key. -/
def variableKey? (word name : String) : Option String :=
  (Text.dropStart? (Value.lower word ++ "_").toList (Value.lower name).toList).map fun rest =>
    String.ofList (pointed rest)

/-- The entries of the environment, as it lists its variables; no order is promised among them. -/
def variableEntries (word : String) (environment : List (String × String)) :
    List (String × Value) :=
  environment.filterMap fun (name, text) =>
    (variableKey? word name).map fun key => (key, variableValue key text)

namespace Layers

/-- No layers. -/
def empty : Layers :=
  ⟨[], none, []⟩

/-- One more source, above those that are there. -/
def addSource (l : Layers) (source : Source) : Layers :=
  { l with sources := l.sources ++ [source] }

/-- One more value set by hand; a later value for the same key counts more. -/
def set (l : Layers) (p : KeyPath) (v : Value) : Layers :=
  { l with overrides := l.overrides ++ [(p, v)] }

/-- Sets a value that may be missing. -/
def setIf (l : Layers) (p : KeyPath) (v? : Option Value) : Layers :=
  v?.elim l (l.set p)

/-- All values in the order in which they are laid over each other, with their keys. The order of the
layers is fixed; among the values of one source, and among those of the environment, it is that of the
listing, one of those that are allowed. -/
def assignments (l : Layers) (host : Host) : Except SettingsFault (List (KeyPath × Value)) := do
  let fromSources ← l.sources.mapM (Source.entries host.files)
  let fromVariables := l.variables?.elim [] fun word => variableEntries word host.environment
  return (fromSources.flatten ++ fromVariables).map (fun (key, v) => (topKey key, v)) ++ l.overrides

/-- The sources in words. -/
def mentions (l : Layers) (host : Host) : List String :=
  l.sources.filterMap (Source.mention? host.files)

/-- The settings that the layers yield, or the first fault. -/
def settings (l : Layers) (host : Host) : Except SettingsFault Settings := do
  let assignments ← l.assignments host
  ofValue (assignments.foldl (fun root (p, v) => p.set v root) (.table []))

/-- The settings that the layers yield, or a failure that names the sources. -/
def load (l : Layers) (host : Host) : Except SettingsError Settings :=
  match l.settings host with
  | .ok s => .ok s
  | .error fault =>
    let sources := ", ".intercalate (l.mentions host)
    .error (.unreadable (if sources = "" then "<defaults>" else sources) fault.message)

end Layers

end Settings

end Grove
