import Grove.Statistics.Scores
import Grove.Text.Json

/-!
# Charts

The scores of a project as a tree of directories. In each directory the directories come first, in
name order, then the files in path order; a directory and a file may share a name. Charts and listings
are text, so they have of each name what is shown of it: directories whose names are shown alike become
one, and files whose names are shown alike stand side by side.
-/

namespace Grove

/-- The directories and scored files of one directory. -/
inductive Chart where
  /-- The directories by name, in name order, and the files in the order they came. -/
  | node (directories : List (String × Chart)) (files : List (String × Nat))
  deriving Inhabited

namespace Chart

/-- A directory that holds nothing. -/
def empty : Chart :=
  node [] []

/-- The directories of a chart. -/
def directories : Chart → List (String × Chart)
  | node ds _ => ds

/-- The files of a chart. -/
def files : Chart → List (String × Nat)
  | node _ fs => fs

/-- Adds a file in the directory that some names lead to. -/
def add : List String → String → Nat → Chart → Chart
  | [], file, score, chart => node chart.directories (chart.files ++ [(file, score)])
  | name :: rest, file, score, chart =>
    let inner := (Ordered.get? compare name chart.directories).getD empty
    node (Ordered.put compare name (add rest file score inner) chart.directories) chart.files

/-- What is shown of the names that lead to a file, its own last. -/
def names (path : Path) : List String :=
  path.components.map fun c => Text.shown c.text

/-- Adds a scored file; a path without components adds nothing. -/
def addPath (chart : Chart) (path : Path) (score : Nat) : Chart :=
  match (names path).getLast? with
  | some file => chart.add (names path).dropLast file score
  | none => chart

/-- The chart of some scores. -/
def ofScores (scores : Scores) : Chart :=
  scores.foldl (fun chart (path, score) => chart.addPath path score) empty

/-- A file as a JSON value. -/
def fileJson (file : String × Nat) : Json :=
  .object [("name", .text file.1), ("size", .number file.2)]

mutual

/-- A directory of a name as a JSON value. -/
def toJson (name : String) : Chart → Json
  | node ds fs =>
    .object [("name", .text name), ("children", .list (directoriesToJson ds ++ fs.map fileJson))]

/-- Directories as JSON values. -/
def directoriesToJson : List (String × Chart) → List Json
  | [] => []
  | (name, chart) :: rest => toJson name chart :: directoriesToJson rest

end

end Chart

namespace Scores

/-- The chart of a project as JSON text. -/
def chartText (name : String) (scores : Scores) (indent : Bool) : String :=
  ((Chart.ofScores scores).toJson name).render indent

/-- One line a file: the score and the path. -/
def listing (scores : Scores) : String :=
  String.join (scores.map fun (path, score) =>
    toString score ++ " " ++ "/".intercalate (Chart.names path) ++ "\n")

end Scores

end Grove
