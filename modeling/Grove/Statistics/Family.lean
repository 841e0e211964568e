import Grove.Host
import Grove.Project.Workspace
import Grove.Statistics.Chart

/-!
# Statistics of a family

The projects of each family, the version they share, and the files that hold their scores below the
family's assets.
-/

namespace Grove

/-- Counts of texts, in text order. -/
abbrev Tally := List (String × Nat)

namespace Tally

/-- The tally with one more of a text. -/
def count (tally : Tally) (s : String) : Tally :=
  Ordered.put compare s ((Ordered.get? compare s tally).getD 0 + 1) tally

/-- The text counted most often; of several the greatest. -/
def most? (tally : Tally) : Option String :=
  (tally.foldl
    (fun (best? : Option (String × Nat)) (s, n) =>
      match best? with
      | some (_, m) => if m ≤ n then some (s, n) else best?
      | none => some (s, n))
    none).map (·.1)

end Tally

namespace Family

/-- The version that projects of the family share. Where they disagree and that is tolerated, it is
the most common one, of several the greatest. -/
def version? (f : Family) (poms : List Pom) (tolerate : Bool) :
    Except ProjectError (Option String) :=
  let tally : Tally := poms.foldl (fun t pom => t.count pom.coordinates.version) []
  if 1 < tally.length ∧ tolerate = false then
    .error (.inconsistentVersions f.name (tally.map (·.1)))
  else .ok tally.most?

end Family

namespace Workspace

/-- Adds a project to the list of its family. -/
def groupProject (groups : List (Family × List Pom)) (pom : Pom) : List (Family × List Pom) :=
  Ordered.put Family.order pom.family
    ((Ordered.get? Family.order pom.family groups).getD [] ++ [pom]) groups

/-- The projects of some checkouts that are not mere aggregators, by family. -/
def projectsByFamily (w : Workspace) (checkouts : List Checkout) : List (Family × List Pom) :=
  ((checkouts.flatMap w.projectsOf).filter fun pom => !pom.isAggregator).foldl groupProject []

/-- The checkouts of some families; there has to be one. -/
def requireInFamilies (w : Workspace) (families : List Family) :
    Except ProjectError (List Checkout) :=
  match w.inFamilies families with
  | [] => .error (.noCheckouts (", ".intercalate (families.map (·.name))))
  | found => .ok found

end Workspace

/-- Where the statistics of a version lie below the assets. -/
def dataDirectory (assets : Path) (version : String) : Path :=
  (((assets.child "docs").child version).child "codeflowers").child "site" |>.child "data"

/-- How and where the statistics of a family are written. -/
structure StatisticsWriter where
  /-- The directory for the files. -/
  directory : Path
  /-- Whether charts are indented. -/
  indent : Bool
  /-- Whether nothing is to be written. -/
  pretend : Bool
  deriving DecidableEq, Inhabited

namespace StatisticsWriter

/-- Writes the chart and the listing of a project. -/
def write (w : StatisticsWriter) (pom : Pom) (scores : Scores) : EStateM Failure Host Unit := do
  let name := pom.coordinates.artifact
  unless w.pretend do
    Host.createDirectories w.directory
    Host.writeText (w.directory.child (name ++ ".json")) (scores.chartText name w.indent)
    Host.writeText (w.directory.child (name ++ ".wc")) scores.listing

/-- Scores projects and writes what comes out. -/
def run (w : StatisticsWriter) (glob? : Option String) (poms : List Pom) :
    EStateM Failure Host ScanSummary :=
  scanProjects Host.files Scorer.words glob?
    (fun pom scores => (w.write pom scores).adaptExcept .error) poms

end StatisticsWriter

end Grove
