import Grove.Files.Basic
import Grove.Ordered
import Grove.Text.Uppercase

/-!
# Project families

Projects that are released together form a family. The family of a group id is its last segment, cut
at the first hyphen unless the segment starts with one; the parent family is derived in the same way
from the segment before.
-/

namespace Grove

/-- A family, by name. -/
structure Family where
  /-- The name. -/
  name : String
  deriving DecidableEq, Inhabited

namespace Family

/-- The part of a segment that names a family. -/
def ofSegment : List Char → List Char
  | '-' :: rest => '-' :: rest
  | segment => segment.takeWhile (· != '-')

/-- The segments of a group id, last first. -/
def segments (group : String) : List (List Char) :=
  (group.toList.splitOn '.').reverse

/-- The family of a group id. -/
def ofGroup (group : String) : Family :=
  ⟨String.ofList (ofSegment ((segments group).headD []))⟩

/-- The family one level above that of a group id. -/
def parentOfGroup? (group : String) : Option Family :=
  match segments group with
  | _ :: segment :: _ => if segment = [] then none else some ⟨String.ofList (ofSegment segment)⟩
  | _ => none

/-- Families are ordered by name. -/
def order (a b : Family) : Ordering :=
  compare a.name b.name

instance : Std.TransCmp order :=
  inferInstanceAs (Std.TransCmp (compareOn fun f : Family => f.name))

instance : Std.LawfulEqCmp order where
  eq_of_compare := by
    rintro ⟨name⟩ ⟨name'⟩ h
    obtain rfl : name = name' := Std.LawfulEqOrd.eq_of_compare h
    rfl

/-- The families named in a comma-separated text, in order of their names, each once. -/
def parseList (text : String) : List Family :=
  Ordered.ofList order ((Text.entries text).map Family.mk)

/-- The environment variable that tells where the family's assets are. -/
def assetsVariable (f : Family) : String :=
  String.ofList ((Text.uppercase f.name).toList.map fun c => if c = '-' then '_' else c) ++
    "_ASSETS_HOME"

/-- Where the family's assets are: the directory its variable names, else the directory
`<family>-assets` of the root, when it is there. -/
def assets? (f : Family) (lookup : String → Option String) (files : Files) (root? : Option Path) :
    Option Path :=
  match (lookup f.assetsVariable).map Text.stripped with
  | some home => if home = "" then beside else some (Path.ofString home)
  | none => beside
where
  /-- The assets directory beside the checkouts. -/
  beside : Option Path :=
    (root?.map (·.child (f.name ++ "-assets"))).filter files.isDirectory

end Family

end Grove
