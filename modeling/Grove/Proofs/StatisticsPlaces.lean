import Grove.Proofs.ProjectFiles
import Grove.Proofs.Resolution
import Grove.Proofs.StatisticsFiles

/-!
# Where statistics are written

The data directory of a family is named by a version and the files in it by artifact ids, and both
are texts that a project file gives. A text without a slash names an entry, so the files lie in the
data directory and that below the assets. A text with slashes is followed like any path: it can lead
out, or away from the assets altogether.

## What is proved

* `dataDirectory_within_iff` — which versions keep the data directory below the assets.
* `pathsFor_within_iff` — which artifact ids keep the files in their data directory.
* `statistics_confined` — all that a call of the writer makes lies there under these conditions.
* `statistics_outside` — project files that lead elsewhere.
-/

namespace Grove.StatisticsWriter

open Grove.Path

/-- The directories that hold the data, below that of a version. -/
def dataTail : Path :=
  .ofString "codeflowers/site/data"

/-- The names of these directories. -/
def dataNames : List String :=
  ["codeflowers", "site", "data"]

theorem resolved_dataTail : dataTail.resolved = dataNames.map .name := by
  decide

theorem resolved_docs : (Path.ofString "docs").resolved = ["docs"].map .name := by
  decide

theorem resolved_dataDirectory (assets : Path) (version : String) :
    (dataDirectory assets version).resolved =
      ((assets.child "docs").child version).resolved ++ dataNames.map .name := by
  rw [dataDirectory, resolved_child_of_isName _ (by decide),
    resolved_child_of_isName _ (by decide), resolved_child_of_isName _ (by decide)]
  simp [dataNames]

/-- The data directory lies where that of its version does. -/
theorem dataDirectory_within (assets : Path) (version : String) :
    (dataDirectory assets version).Within ((assets.child "docs").child version) :=
  ⟨dataNames, resolved_dataDirectory assets version⟩

/-- A version keeps the data directory below all assets when it leads from `docs` back there. -/
theorem dataDirectory_within_iff (version : String) :
    (∀ assets : Path, (dataDirectory assets version).Within (assets.child "docs")) ↔
      ((Path.ofString "docs").child version).Within (Path.ofString "docs") := by
  constructor
  · intro h
    obtain ⟨names, hnames⟩ := h (.ofString "")
    have hdocs : ((Path.ofString "").child "docs") = Path.ofString "docs" := by decide
    rw [resolved_dataDirectory, hdocs, resolved_docs] at hnames
    rcases List.append_eq_cons_iff.1 hnames with ⟨-, htail⟩ | ⟨rest, hversion, hrest⟩
    · -- from nowhere the data directory starts with another name
      simp [dataNames] at htail
    · obtain ⟨names', rfl⟩ : ∃ names' : List String, rest = names'.map .name := by
        refine Component.exists_names_iff.2 fun c hc => ?_
        refine Component.exists_names_iff.1 ⟨names, rfl⟩ c ?_
        have hnames' : names.map Component.name = rest ++ dataNames.map .name := hrest
        rw [hnames']
        exact List.mem_append_left _ hc
      exact ⟨names', by rw [hversion, resolved_docs]; rfl⟩
  · intro h assets
    exact (dataDirectory_within assets version).trans
      (within_child_of_tail resolved_docs (resolved_child_of_isName assets (by decide)) h)

/-- An artifact id keeps its files in every data directory when it does so in that of no assets and
no version. -/
theorem pathsFor_within_iff (pom : Pom) :
    (∀ assets version indent pretend,
        ∀ p ∈ pathsFor ⟨dataDirectory assets version, indent, pretend⟩ pom,
          p.Within (dataDirectory assets version)) ↔
      ∀ p ∈ pathsFor ⟨dataTail, false, false⟩ pom, p.Within dataTail := by
  have heach : ∀ (w : StatisticsWriter) (dir : Path), (∀ p ∈ w.pathsFor pom, p.Within dir) ↔
      (w.chartPath pom).Within dir ∧ (w.listingPath pom).Within dir := by
    simp [pathsFor]
  simp only [heach]
  constructor
  · intro h
    have hbare : (dataDirectory (.ofString "") "..").resolved = dataTail.resolved := by
      decide
    obtain ⟨hchart, hlisting⟩ := h (.ofString "") ".." false false
    exact ⟨(within_child_congr hbare _).1 hchart, (within_child_congr hbare _).1 hlisting⟩
  · rintro ⟨hchart, hlisting⟩ assets version indent pretend
    have hdir := resolved_dataDirectory assets version
    exact ⟨within_child_of_tail resolved_dataTail hdir hchart,
      within_child_of_tail resolved_dataTail hdir hlisting⟩

/-! ### Texts without a slash -/

/-- A version without a slash keeps the data directory below the assets, unless it is `..`. -/
theorem dataDirectory_within_of_plain {version : String} (hslash : '/' ∉ version.toList)
    (hup : version ≠ "..") (assets : Path) :
    (dataDirectory assets version).Within (assets.child "docs") := by
  refine (dataDirectory_within assets version).trans ?_
  by_cases hname : Path.isName version = true
  · exact within_child_of_isName _ hname
  · -- the text adds nothing to the path
    have hnoise : version = "" ∨ version = "." := by
      simpa [Path.isName, isNoise, hslash, hup, or_iff_not_imp_left] using hname
    refine ⟨[], ?_⟩
    rcases hnoise with rfl | rfl
    · rw [resolved_child, List.map_nil, List.append_nil]
      rfl
    · rw [resolved_child, List.map_nil, List.append_nil]
      rfl

/-- A text without a slash and with an ending is a proper name. -/
theorem isName_append {s ending : String} (hslash : '/' ∉ s.toList)
    (hending : '/' ∉ ending.toList) (hlast : ending.toList.getLast?.any (· ≠ '.') = true) :
    Path.isName (s ++ ending) = true := by
  have hends : (s ++ ending).toList.getLast?.any (· ≠ '.') = true := by
    rw [String.toList_append, List.getLast?_append]
    cases hsome : ending.toList.getLast? with
    | none => simp [hsome] at hlast
    | some c => simpa [hsome] using hlast
  have hne : ∀ dots ∈ ["", ".", ".."], s ++ ending ≠ dots := by
    rintro dots hdots heq
    rw [heq] at hends
    simp only [List.mem_cons, List.not_mem_nil, or_false] at hdots
    rcases hdots with rfl | rfl | rfl <;> simp at hends
  simp only [List.forall_mem_cons] at hne
  simp [Path.isName, isNoise, hne, hslash, hending]

/-- An artifact id without a slash keeps its files in every directory. -/
theorem pathsFor_within_of_plain {pom : Pom} (hslash : '/' ∉ pom.coordinates.artifact.toList)
    (w : StatisticsWriter) : ∀ p ∈ w.pathsFor pom, p.Within w.directory := by
  have hchart : Path.isName (pom.coordinates.artifact ++ ".json") = true :=
    isName_append hslash (by decide) (by decide)
  have hlisting : Path.isName (pom.coordinates.artifact ++ ".wc") = true :=
    isName_append hslash (by decide) (by decide)
  simp only [pathsFor, chartPath, listingPath, List.forall_mem_cons]
  exact ⟨within_child_of_isName _ hchart, within_child_of_isName _ hlisting, by simp⟩

/-! ### What is written -/

/-- **Where statistics are written.** A call of the writer makes its directory, writes the two files
for the project, and does nothing else. The data directory lies below `docs` of all assets exactly
when its version leads from `docs` back there, which every version without a slash does except `..`.
The files for a project lie in all data directories exactly when they lie in the last part of one,
and an artifact id without a slash keeps them in any directory. -/
theorem statistics_confined (pom : Pom) (version : String) :
    (∀ (w : StatisticsWriter) (scores : Scores), w.write pom scores = unless w.pretend do
        Host.createDirectories w.directory
        Host.writeText (w.chartPath pom) (w.chartFor pom scores)
        Host.writeText (w.listingPath pom) scores.listing) ∧
      ((∀ assets : Path, (dataDirectory assets version).Within (assets.child "docs")) ↔
        ((Path.ofString "docs").child version).Within (Path.ofString "docs")) ∧
      ((∀ assets version indent pretend,
          ∀ p ∈ pathsFor ⟨dataDirectory assets version, indent, pretend⟩ pom,
            p.Within (dataDirectory assets version)) ↔
        ∀ p ∈ pathsFor ⟨dataTail, false, false⟩ pom, p.Within dataTail) ∧
      ('/' ∉ version.toList → version ≠ ".." → ∀ assets : Path,
        (dataDirectory assets version).Within (assets.child "docs")) ∧
      ('/' ∉ pom.coordinates.artifact.toList → ∀ (w : StatisticsWriter), ∀ p ∈ w.pathsFor pom,
        p.Within w.directory) :=
  ⟨fun _ _ => rfl, dataDirectory_within_iff version, pathsFor_within_iff pom,
    dataDirectory_within_of_plain, pathsFor_within_of_plain⟩

theorem statistics_confined_plain :
    let pom : Pom :=
      ⟨.ofString "core/pom.xml", ⟨"com.telenav.kivakit", "kivakit-core", "1.0.0"⟩, "jar"⟩
    '/' ∉ "1.0.0".toList ∧ "1.0.0" ≠ ".." ∧
      (∀ assets : Path, (dataDirectory assets "1.0.0").Within (assets.child "docs")) ∧
      '/' ∉ pom.coordinates.artifact.toList ∧
      ∀ (w : StatisticsWriter), ∀ p ∈ w.pathsFor pom, p.Within w.directory := by
  intro pom
  obtain ⟨-, -, -, hversion, hartifact⟩ := statistics_confined pom "1.0.0"
  have hslash : '/' ∉ "1.0.0".toList := by decide
  have hslash' : '/' ∉ pom.coordinates.artifact.toList := by decide
  exact ⟨hslash, by decide, hversion hslash (by decide), hslash', hartifact hslash'⟩

/-- Project files may give an artifact id and a version that climb, or an artifact id that is
absolute: these lead out of the data directory and out of the assets. -/
theorem statistics_outside :
    let assets : Path := .ofString "/ws/assets"
    ∃ climbing absolute : Pom,
      Pom.parse (.ofString "a/pom.xml") (Pom.projectFile "../../../../../outside" "../..") =
          .ok climbing ∧
        Pom.parse (.ofString "b/pom.xml") (Pom.projectFile "/tmp/outside" "1.0.0") = .ok absolute ∧
      let w : StatisticsWriter := ⟨dataDirectory assets "1.0.0", false, false⟩
      (w.chartPath climbing).resolved = (assets.child "outside.json").resolved ∧
        ¬(w.chartPath climbing).Within w.directory ∧
        (w.chartPath absolute).resolved = (Path.ofString "/tmp/outside.json").resolved ∧
        ¬(w.chartPath absolute).Within w.directory ∧
        ¬(dataDirectory assets climbing.coordinates.version).Within (assets.child "docs") := by
  intro assets
  have hclimbing : Pom.parse (.ofString "a/pom.xml")
      (Pom.projectFile "../../../../../outside" "../..") = .ok _ :=
    Pom.parse_projectFile _ (by decide) (by decide)
  have habsolute : Pom.parse (.ofString "b/pom.xml") (Pom.projectFile "/tmp/outside" "1.0.0") =
      .ok _ := Pom.parse_projectFile _ (by decide) (by decide)
  refine ⟨_, _, hclimbing, habsolute, ?_⟩
  decide

end Grove.StatisticsWriter
