import Grove.Failure
import Grove.Files.Node

/-!
# The file system

The files of a machine as seen from a current directory, and the operations on them by path. A path
is followed step by step: `..` leaves the directory reached so far, a link is replaced by its
target, and every step needs a directory to start from. At most `Files.maxLinks` links are followed.
-/

namespace Grove

/-- A tree of files with the location that relative paths start from. -/
structure Files where
  /-- The top directory. -/
  top : Node
  /-- The current directory. -/
  here : Location
  deriving Inhabited

namespace Files

/-- How many links one path may pass. -/
def maxLinks : Nat := 40

/-- The longest name an entry may have, in bytes. -/
def maxNameBytes : Nat := 255

/-- Where a path leads, and whether anything is there. Only the last name may be missing. -/
structure Place where
  /-- The location without links. -/
  location : Location
  /-- Whether the location holds a node. -/
  present : Bool

/-- Follows the steps of a path from a location. With `through` a link in the last place is
followed too. -/
def follow (top : Node) (through : Bool) (links : Nat) (from_ : Location) (steps : List String) :
    Except OsError Place :=
  match steps with
  | [] => .ok ⟨from_, true⟩
  | step :: rest =>
    match top.get? from_ with
    | none => .error .notFound
    | some (.directory es) =>
      if Path.isNoise step then follow top through links from_ rest
      else if step = ".." then follow top through links from_.dropLast rest
      else if maxNameBytes < Text.nameSize step then .error .nameTooLong
      else if Text.hasZero step then .error .nulInPath
      else
        match es.lookup step with
        | none =>
          if rest.all Path.isNoise then .ok ⟨from_ ++ [step], false⟩ else .error .notFound
        | some (.link target) =>
          if rest = [] ∧ through = false then .ok ⟨from_ ++ [step], true⟩
          else
            match links with
            | 0 => .error .tooManyLinks
            | links + 1 =>
              follow top through links (if target.isAbsolute then [] else from_)
                (target.pieces ++ rest)
        | some _ => follow top through links (from_ ++ [step]) rest
    | some _ => .error .notADirectory
termination_by (links, steps.length)

/-- Where a path leads, links included. -/
def place (fs : Files) (p : Path) : Except OsError Place :=
  if p.components = [] then .error .notFound
  else follow fs.top true maxLinks (if p.isAbsolute then [] else fs.here) p.pieces

/-- Where a path leads when a link in the last place is not followed. -/
def placeOfLink (fs : Files) (p : Path) : Except OsError Place :=
  if p.components = [] then .error .notFound
  else follow fs.top false maxLinks (if p.isAbsolute then [] else fs.here) p.pieces

/-- The node a path leads to. -/
def node (fs : Files) (p : Path) : Except OsError Node := do
  let place ← fs.place p
  match fs.top.get? place.location with
  | some n => .ok n
  | none => .error .notFound

/-- Whether a path leads to anything. -/
def holds (fs : Files) (p : Path) : Bool :=
  (fs.node p).isOk

/-- Whether a path leads to a directory. -/
def isDirectory (fs : Files) (p : Path) : Bool :=
  match fs.node p with
  | .ok n => n.isDirectory
  | .error _ => false

/-- Whether a path leads to a file. -/
def isFile (fs : Files) (p : Path) : Bool :=
  match fs.node p with
  | .ok n => n.isFile
  | .error _ => false

/-- Whether a path leads to a link. -/
def isLink (fs : Files) (p : Path) : Bool :=
  match fs.placeOfLink p with
  | .ok place =>
    match fs.top.get? place.location with
    | some (.link _) => true
    | _ => false
  | .error _ => false

/-- The absolute path of a location. -/
def pathOf (loc : Location) : Path :=
  match loc with
  | [] => ⟨["", ""]⟩
  | _ => ⟨"" :: loc⟩

/-- The absolute path without links that a path leads to. -/
def canonical (fs : Files) (p : Path) : Except OsError Path := do
  let place ← fs.place p
  if place.present then .ok (pathOf place.location) else .error .notFound

/-- The bytes of a file. -/
def read (fs : Files) (p : Path) : Except OsError ByteArray := do
  match ← fs.node p with
  | .file content _ => .ok content
  | _ => .error .isADirectory

/-- The text of a file. -/
def readText (fs : Files) (p : Path) : Except OsError String := do
  match String.fromUTF8? (← fs.read p) with
  | some s => .ok s
  | none => .error .notText

/-- The files with a node at a location. -/
def putAt (fs : Files) (loc : Location) (n : Node) : Files :=
  { fs with top := fs.top.put loc n }

/-- Writes a file, which is made when the directory it belongs to is there. A path that asks for a
directory, as one does that ends in a slash or leads to a link that does, makes none. -/
def write (fs : Files) (p : Path) (content : ByteArray) : Except OsError Files := do
  let place ← fs.place p
  match fs.top.get? place.location with
  | some (.file _ executable) => .ok (fs.putAt place.location (.file content executable))
  | some _ => .error .isADirectory
  | none =>
    let made := fs.putAt place.location (.file content false)
    -- the path does not lead to the file where it asks for a directory
    if (made.place p).isOk then .ok made else .error .isADirectory

/-- Writes a text file. -/
def writeText (fs : Files) (p : Path) (text : String) : Except OsError Files :=
  fs.write p text.toUTF8

/-- Makes one directory. -/
def createDirectory (fs : Files) (p : Path) : Except OsError Files := do
  let place ← fs.placeOfLink p
  if place.present then .error .alreadyExists
  else .ok (fs.putAt place.location .emptyDirectory)

/-- Makes the directories of a list in order, where one that is there already counts as made. -/
def createEach (fs : Files) : List Path → Except OsError Files
  | [] => .ok fs
  | p :: rest =>
    if p.components = [] then createEach fs rest
    else
      match fs.createDirectory p with
      | .ok fs => createEach fs rest
      | .error e => if fs.isDirectory p then createEach fs rest else .error e

/-- The directories among `p` and its ancestors that have to be made before `p`: those, innermost
first, whose making finds no directory to start from. -/
def missingAncestors (fs : Files) : List Path → List Path
  | [] => []
  | p :: rest =>
    if p.components = [] then []
    else
      match fs.createDirectory p with
      | .error .notFound => p :: missingAncestors fs rest
      | _ => [p]

/-- Makes a directory and the directories it lies in. -/
def createDirectories (fs : Files) (p : Path) : Except OsError Files :=
  fs.createEach (fs.missingAncestors p.ancestors).reverse

/-- Removes what a path leads to, with all that lies in it. -/
def remove (fs : Files) (p : Path) : Except OsError Files := do
  let place ← fs.placeOfLink p
  if place.present then .ok { fs with top := fs.top.erase place.location } else .error .notFound

/-- The names in a directory, in order. -/
def list (fs : Files) (p : Path) : Except OsError (List String) := do
  match ← fs.node p with
  | .directory es => .ok (es.map (·.1))
  | _ => .error .notADirectory

/-- The files with another current directory. -/
def enter (fs : Files) (p : Path) : Except OsError Files := do
  let place ← fs.place p
  match fs.top.get? place.location with
  | some (.directory _) => .ok { fs with here := place.location }
  | some _ => .error .notADirectory
  | none => .error .notFound

end Files

end Grove
