import Grove.Project.Family

/-!
# Project files

The descriptor of a Maven project, read for its coordinates only. Comments are removed first, then
the parent block is set aside and the sections that repeat element names are removed; of what
remains, the first element of each name counts. A missing group id or version is the parent's.
-/

namespace Grove

/-- What identifies a project. -/
structure Coordinates where
  /-- The group id. -/
  group : String
  /-- The artifact id. -/
  artifact : String
  /-- The version. -/
  version : String
  deriving DecidableEq, Inhabited

namespace Coordinates

/-- The written form. -/
def text (c : Coordinates) : String :=
  c.group ++ ":" ++ c.artifact ++ ":" ++ c.version

/-- Coordinates are ordered by group id, then artifact id, then version. -/
def order (a b : Coordinates) : Ordering :=
  ((compare a.group b.group).then (compare a.artifact b.artifact)).then
    (compare a.version b.version)

end Coordinates

/-- A project: where its file is and what the file says. -/
structure Pom where
  /-- The project file. -/
  path : Path
  /-- What identifies the project. -/
  coordinates : Coordinates
  /-- What the project is packaged as. -/
  packaging : String
  deriving DecidableEq, Inhabited

namespace Pom

/-- The name of project files. -/
def fileName : String := "pom.xml"

/-- The packaging of a project that names none. -/
def defaultPackaging : String := "jar"

/-- The directory of the project. -/
def directory (p : Pom) : Path :=
  p.path.parent?.getD (Path.ofString ".")

/-- The family of the project. -/
def family (p : Pom) : Family :=
  Family.ofGroup p.coordinates.group

/-- Whether the project only gathers others and has no sources of its own. -/
def isAggregator (p : Pom) : Bool :=
  p.packaging = "pom"

/-- The written form. -/
def text (p : Pom) : String :=
  p.coordinates.text

/-- Projects are ordered by path, then by coordinates. -/
def order (a b : Pom) : Ordering :=
  (a.path.order b.path).then (a.coordinates.order b.coordinates)

/-- Whether `a` comes before `b` or compares as equal. -/
def le (a b : Pom) : Bool :=
  (a.order b).isLE

/-- Whether two projects agree in everything, whatever the text of their paths. -/
def same (a b : Pom) : Bool :=
  a.path.alike b.path && a.coordinates = b.coordinates && a.packaging = b.packaging

/-! ### Reading -/

/-- The sections whose contents may repeat the element names, in the order of removal. -/
def nestedSections : List String :=
  ["profiles", "build", "reporting", "dependencyManagement", "dependencies", "properties",
    "distributionManagement", "modules"]

/-- The tag that opens an element. -/
def openTag (name : String) : List Char :=
  '<' :: name.toList ++ ['>']

/-- The tag that closes an element. -/
def closeTag (name : String) : List Char :=
  '<' :: '/' :: name.toList ++ ['>']

/-- Removes every stretch from `opening` to the nearest `closing` after it. -/
def removeBlocks (opening closing cs : List Char) : List Char :=
  match Text.cut opening cs with
  | none => cs
  | some (before, after) =>
    match Text.cut closing after with
    | none => cs
    | some (_, rest) =>
      if _h : rest.length < cs.length then before ++ removeBlocks opening closing rest else cs
termination_by cs.length

/-- The inside of the first block and the text without the block. -/
def takeBlock? (opening closing cs : List Char) : Option (List Char × List Char) := do
  let (before, after) ← Text.cut opening cs
  let (inner, rest) ← Text.cut closing after
  some (inner, before ++ rest)

/-- The stripped text of the first element of the name that holds only text. -/
def elementText? (name : String) (cs : List Char) : Option (List Char) :=
  match Text.cut (openTag name) cs with
  | none => none
  | some (_, after) =>
    match Text.dropStart? (closeTag name) (after.dropWhile (· != '<')) with
    | some _ => some (Text.strip (after.takeWhile (· != '<')))
    | none => if _h : after.length < cs.length then elementText? name after else none
termination_by cs.length

/-- The value of an element; an empty one counts as missing. -/
def element? (name : String) (cs : List Char) : Option String :=
  match elementText? name cs with
  | some [] => none
  | found => found.map String.ofList

/-- The text of a project file without comments, taken apart into the parent block, if any, and what
remains without the nested sections. -/
def sections (xml : List Char) : Option (List Char) × List Char :=
  let plain := removeBlocks "<!--".toList "-->".toList xml
  let (parent?, body) :=
    match takeBlock? (openTag "parent") (closeTag "parent") plain with
    | some (inner, rest) => (some inner, rest)
    | none => (none, plain)
  (parent?, nestedSections.foldl (fun cs s => removeBlocks (openTag s) (closeTag s) cs) body)

/-- Reads the text of a project file. -/
def parse (path : Path) (xml : String) : Except ProjectError Pom := do
  let (parent?, body) := sections xml.toList
  let refuse (what : String) : ProjectError := .unreadable path.shown what
  let inherited (name : String) : Option String := parent?.bind (element? name)
  let artifact ← ((element? "artifactId" body).elim (.error (refuse "no artifactId")) .ok)
  let group ← (((element? "groupId" body) <|> inherited "groupId").elim
    (.error (refuse "no groupId and no parent groupId")) .ok)
  let version ← (((element? "version" body) <|> inherited "version").elim
    (.error (refuse "no version and no parent version")) .ok)
  .ok ⟨path, ⟨group, artifact, version⟩, (element? "packaging" body).getD defaultPackaging⟩

/-- Reads a project file. -/
def ofFile (files : Files) (path : Path) : Except Failure Pom :=
  match files.readText path with
  | .error e => .error ((Failure.bare (.os e)).within ("failed to read " ++ path.shown))
  | .ok xml =>
    match parse path xml with
    | .ok pom => .ok pom
    | .error e => .error (.bare (.project e))

end Pom

end Grove
