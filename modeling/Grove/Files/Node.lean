import Grove.Path

/-!
# Files and directories

A tree of files, directories and symbolic links. A location is the list of names that leads from
the top to a node without passing a link. Directories keep their entries in name order, one entry
a name.

Main statement: reading a location after writing it gives what was written (`get?_put_self`).
-/

namespace Grove

/-- Contents are equal when their bytes are. -/
instance (priority := high) decideEqContent : DecidableEq ByteArray := fun a b =>
  decidable_of_iff (a.data = b.data) ⟨ByteArray.ext, congrArg ByteArray.data⟩

/-- The names from the top directory to a node. -/
abbrev Location := List String

/-- A file, a directory or a symbolic link. -/
inductive Node where
  /-- A file with its bytes; it may be a program. -/
  | file (content : ByteArray) (executable : Bool)
  /-- A directory with its entries. -/
  | directory (entries : List (String × Node))
  /-- A symbolic link to a path. -/
  | link (target : Path)
  deriving Inhabited

namespace Node

/-- An empty directory. -/
def emptyDirectory : Node :=
  directory []

/-- A file that holds the text. -/
def ofText (s : String) : Node :=
  file s.toUTF8 false

/-- Whether the node is a directory. -/
def isDirectory : Node → Bool
  | directory _ => true
  | _ => false

/-- Whether the node is a file. -/
def isFile : Node → Bool
  | file .. => true
  | _ => false

/-- The entries of a directory; none for anything else. -/
def entries : Node → List (String × Node)
  | directory es => es
  | _ => []

/-- Puts an entry among others, in name order, in place of one with its name. -/
def insertEntry (name : String) (node : Node) : List (String × Node) → List (String × Node)
  | [] => [(name, node)]
  | (n, x) :: rest =>
    if name = n then (name, node) :: rest
    else if name < n then (name, node) :: (n, x) :: rest
    else (n, x) :: insertEntry name node rest

/-- The node at a location. -/
def get? : Location → Node → Option Node
  | [], node => some node
  | name :: rest, directory es => (es.lookup name).bind (get? rest)
  | _ :: _, _ => none

/-- The tree with `new` at the location. Missing directories on the way are made; a file or link on
the way is replaced by a directory. -/
def put : Location → Node → Node → Node
  | [], _, new => new
  | name :: rest, node, new =>
    directory (insertEntry name (put rest ((node.entries.lookup name).getD emptyDirectory) new)
      node.entries)

/-- The tree without the node at the location. -/
def erase : Location → Node → Node
  | [], node => node
  | [name], directory es => directory (es.filter fun e => e.1 != name)
  | name :: rest, directory es =>
    match es.lookup name with
    | some child => directory (insertEntry name (erase rest child) es)
    | none => directory es
  | _ :: _, node => node

theorem lookup_insertEntry_self (name : String) (node : Node) (es : List (String × Node)) :
    (insertEntry name node es).lookup name = some node := by
  induction es with
  | nil => simp [insertEntry]
  | cons e rest ih =>
    obtain ⟨n, x⟩ := e
    by_cases h : name = n
    · simp [insertEntry, h]
    · by_cases hlt : name < n
      · simp [insertEntry, h, hlt]
      · simp [insertEntry, h, hlt, List.lookup_cons, beq_eq_false_iff_ne.2 h, ih]

theorem lookup_insertEntry_of_ne {name other : String} (h : other ≠ name) (node : Node)
    (es : List (String × Node)) :
    (insertEntry name node es).lookup other = es.lookup other := by
  induction es with
  | nil => simp [insertEntry, List.lookup_cons, beq_eq_false_iff_ne.2 h]
  | cons e rest ih =>
    obtain ⟨n, x⟩ := e
    by_cases hn : name = n
    · subst hn
      simp [insertEntry, List.lookup_cons, beq_eq_false_iff_ne.2 h]
    · by_cases hlt : name < n
      · simp [insertEntry, hn, hlt, List.lookup_cons, beq_eq_false_iff_ne.2 h]
      · simp only [insertEntry, hn, hlt, if_false, List.lookup_cons]
        split <;> simp [ih]

/-- What was written at a location is read there. -/
@[simp] theorem get?_put_self (loc : Location) (node new : Node) :
    get? loc (put loc node new) = some new := by
  induction loc generalizing node with
  | nil => rfl
  | cons name rest ih => simp [put, get?, lookup_insertEntry_self, ih]

mutual

/-- Every node below, with its location relative to the node itself. -/
def descendants : Node → List (Location × Node)
  | file .. => []
  | link .. => []
  | directory es => entryDescendants es

/-- The entries and everything below them. -/
def entryDescendants : List (String × Node) → List (Location × Node)
  | [] => []
  | (name, node) :: rest =>
    ([name], node) :: (descendants node).map (fun (loc, n) => (name :: loc, n)) ++
      entryDescendants rest

end

end Node

end Grove
