import Grove.Files.Node
import Grove.Ordered
import Grove.Text.Digest

/-!
# Snapshots

What git keeps of a work tree: the files, links and submodules by their paths below its root, in path
order. Every snapshot has an identifier, the digest of the tree of directories that it stands for, so
equal snapshots have equal identifiers.

Main statement: an item is found at the path where it was put (`item?_put_self`).
-/

namespace Grove.Git

/-- The identifier of something git keeps, in hexadecimal digits. -/
abbrev ObjectId := String

/-- Something git keeps at a path. -/
inductive Item where
  /-- A file; it may be a program. -/
  | file (content : ByteArray) (executable : Bool)
  /-- A symbolic link. -/
  | link (target : String)
  /-- Another repository, at one of its commits. -/
  | submodule (commit : ObjectId)
  deriving DecidableEq, Inhabited

/-- The digest of an object: of its kind, the length of its content and the content. -/
def objectDigest (kind : String) (content : List UInt8) : List UInt8 :=
  let header := kind ++ " " ++ toString content.length
  Digest.bytes (header.toUTF8.data.toList ++ 0 :: content)

namespace Item

/-- The item for a node that is not a directory. -/
def ofNode? : Node → Option Item
  | .file content executable => some (file content executable)
  | .link target => some (link target.text)
  | .directory _ => none

/-- The node for an item; a submodule stands as a directory. -/
def node : Item → Node
  | file content executable => .file content executable
  | link target => .link (.ofString target)
  | submodule _ => .emptyDirectory

/-- Whether the item is a submodule. -/
def isSubmodule : Item → Bool
  | submodule _ => true
  | _ => false

/-- The mode under which a directory lists the item. -/
def mode : Item → String
  | file _ executable => if executable then "100755" else "100644"
  | link _ => "120000"
  | submodule _ => "160000"

/-- The value of a hexadecimal digit. -/
def hexValue (c : Char) : Nat :=
  if c.isDigit then c.toNat - '0'.toNat else c.toNat - 'a'.toNat + 10

/-- The bytes that pairs of hexadecimal digits stand for. -/
def ofHex : List Char → List UInt8
  | a :: b :: rest => (16 * hexValue a + hexValue b).toUInt8 :: ofHex rest
  | _ => []

/-- The digest under which a directory lists the item. -/
def digest : Item → List UInt8
  | file content _ => objectDigest "blob" content.data.toList
  | link target => objectDigest "blob" target.toUTF8.data.toList
  | submodule commit => ofHex commit.toList

end Item

/-- The items of a work tree by path, in path order. -/
abbrev Snapshot := List (String × Item)

namespace Snapshot

/-- The item at a path. -/
def item? (s : Snapshot) (path : String) : Option Item :=
  Ordered.get? compare path s

/-- The snapshot with an item at a path. -/
def put (s : Snapshot) (path : String) (item : Item) : Snapshot :=
  Ordered.put compare path item s

/-- The snapshot without a path. -/
def erase (s : Snapshot) (path : String) : Snapshot :=
  Ordered.erase compare path s

/-- The snapshot with an item at a path, or with nothing there. -/
def set (s : Snapshot) (path : String) : Option Item → Snapshot
  | some item => s.put path item
  | none => s.erase path

/-- The paths. -/
def paths (s : Snapshot) : List String :=
  s.map (·.1)

/-- The paths of several snapshots together, in order. -/
def allPaths (ss : List Snapshot) : List String :=
  Ordered.ofList compare (ss.flatMap paths)

/-- An item is found at the path where it was put. -/
theorem item?_put_self (s : Snapshot) (path : String) (item : Item) :
    (s.put path item).item? path = some item :=
  Ordered.get?_put_self compare path item s

/-- The names on a path. -/
def names (path : String) : List String :=
  path.splitOn "/"

/-- Whether a path lies below a directory. -/
def isBelow (directory path : String) : Bool :=
  (directory ++ "/").toList.isPrefixOf path.toList

/-! ### Identifiers -/

/-- An entry of a directory: its mode, its name and its digest. -/
def entryBytes (mode name : String) (digest : List UInt8) : List UInt8 :=
  (mode ++ " " ++ name).toUTF8.data.toList ++ 0 :: digest

/-- The digest of a directory, given its items by the names that lead to them. -/
def treeDigest (depth : Nat) (items : List (List String × Item)) : List UInt8 :=
  match depth with
  | 0 => objectDigest "tree" []
  | depth + 1 =>
    let groups := items.splitBy fun a b => a.1.head? == b.1.head?
    objectDigest "tree" (groups.flatMap fun group =>
      match group with
      | [([name], item)] => entryBytes item.mode name item.digest
      | (name :: _, _) :: _ =>
        entryBytes "40000" name (treeDigest depth (group.map fun (ns, item) => (ns.tail, item)))
      | _ => [])

/-- The digest of the snapshot. -/
def digest (s : Snapshot) : List UInt8 :=
  let items := s.map fun (path, item) => (names path, item)
  treeDigest ((items.map (·.1.length)).foldl max 0 + 1) items

/-- The identifier of the snapshot. -/
def id (s : Snapshot) : ObjectId :=
  Digest.hex s.digest

end Snapshot

end Grove.Git
