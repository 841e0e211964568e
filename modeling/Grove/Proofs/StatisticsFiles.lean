import Grove.Proofs.Action
import Grove.Proofs.PlainDirectories
import Grove.Proofs.PoolRuns
import Grove.Statistics.Family

/-!
# The files for statistics

A project's statistics go to files that are named by its artifact id. Where the files of different
projects are different files, each project's are there in the end, whatever the order in which the
workers called the writer.

## What is proved

* `write_eq_ok_iff` — a call of the writer makes the directory and writes two files.
* `handOnAll_eq_iff` — when a number of calls all go well, and what they write.
* `filesApart_of_nodup` — projects with different artifact ids have different files.
* `statistics_kept` — the statistics of all projects are there, whatever the order of the calls.
* `statistics_overwritten` — those of projects that share an artifact id are not.
-/

namespace Grove

/-! ### Calls of the writer -/

namespace StatisticsWriter

open Pool

variable (w : StatisticsWriter)

/-- The file for the chart of a project. -/
def chartPath (pom : Pom) : Path :=
  w.directory.child (pom.coordinates.artifact ++ ".json")

/-- The file for the listing of a project. -/
def listingPath (pom : Pom) : Path :=
  w.directory.child (pom.coordinates.artifact ++ ".wc")

/-- The files for a project. -/
def pathsFor (pom : Pom) : List Path :=
  [w.chartPath pom, w.listingPath pom]

/-- The chart of a project. -/
def chartFor (pom : Pom) (scores : Scores) : String :=
  scores.chartText pom.coordinates.artifact w.indent

/-- What is written for a project. -/
def filesFor (call : Pom × Scores) : List (Path × String) :=
  [(w.chartPath call.1, w.chartFor call.1 call.2), (w.listingPath call.1, call.2.listing)]

/-- How scores are handed on to the writer. -/
def deliver (pom : Pom) (scores : Scores) : EStateM Breakdown Host Unit :=
  (w.write pom scores).adaptExcept .error

theorem run_eq (glob? : Option String) (poms : List Pom) :
    w.run glob? poms = scanProjects Host.files .words glob? w.deliver poms :=
  rfl

/-- The files for some projects are different files once the directory for them is there. -/
def FilesApart (files : Files) (poms : List Pom) : Prop :=
  ∀ made, files.createDirectories w.directory = .ok made →
    (poms.flatMap w.pathsFor).Pairwise made.Apart

variable {w} {host : Host} {made : Files}

theorem change_eq_ok_iff {step : String} {f : Files → Except OsError Files} {host' : Host}
    {u : Unit} : Host.change step f host = .ok u host' ↔
      ∃ files, f host.files = .ok files ∧ host' = { host with files } := by
  rw [Host.change]
  cases f host.files <;> simp [eq_comm]

/-- Calls that all go well go well one after the other. -/
theorem handOnAll_cons_eq_iff {σ : Type} {deliver : Pom → Scores → EStateM Breakdown σ Unit}
    {call : Pom × Scores} {calls : List (Pom × Scores)} {s t : σ} :
    handOnAll deliver (call :: calls) s = ((call :: calls).map fun _ => .scanned, t) ↔
      ∃ mid, handOn deliver call.1 call.2 s = (.scanned, mid) ∧
        handOnAll deliver calls mid = (calls.map fun _ => .scanned, t) := by
  obtain ⟨pom, scores⟩ := call
  simp only [handOnAll, List.map_cons, Prod.ext_iff, List.cons.injEq]
  constructor
  · rintro ⟨⟨hfirst, hrest⟩, rfl⟩
    exact ⟨_, ⟨hfirst, rfl⟩, hrest, rfl⟩
  · rintro ⟨_, ⟨hfirst, rfl⟩, hrest, rfl⟩
    exact ⟨⟨hfirst, hrest⟩, rfl⟩

theorem handOnAll_eq_of_forall_scanned {σ : Type}
    {deliver : Pom → Scores → EStateM Breakdown σ Unit} {calls : List (Pom × Scores)} {s : σ}
    (h : ∀ o ∈ (handOnAll deliver calls s).1, o = .scanned) :
    handOnAll deliver calls s = (calls.map fun _ => .scanned, (handOnAll deliver calls s).2) := by
  induction calls generalizing s with
  | nil => rfl
  | cons call calls ih =>
    obtain ⟨pom, scores⟩ := call
    obtain ⟨hfirst, hrest⟩ := List.forall_mem_cons.1 h
    exact handOnAll_cons_eq_iff.2 ⟨_, Prod.ext hfirst rfl, ih hrest⟩

section

variable (hpretend : w.pretend = false)

include hpretend

/-- A call of the writer makes the directory and writes two files. -/
theorem write_eq_ok_iff {pom : Pom} {scores : Scores} {host' : Host} :
    w.write pom scores host = .ok () host' ↔
      ∃ made files, host.files.createDirectories w.directory = .ok made ∧
        made.writeAll (w.filesFor (pom, scores)) = .ok files ∧ host' = { host with files } := by
  have hwrite : w.write pom scores = (do
      Host.createDirectories w.directory
      Host.writeText (w.chartPath pom) (w.chartFor pom scores)
      Host.writeText (w.listingPath pom) scores.listing) := by
    rw [write, hpretend]
    rfl
  rw [hwrite]
  simp only [bind_eq_ok_iff, Host.createDirectories, Host.writeText, change_eq_ok_iff, filesFor,
    Files.writeAll_cons_eq_ok_iff]
  constructor
  · rintro ⟨⟨⟩, _, ⟨made, hmade, rfl⟩, ⟨⟩, _, ⟨mid, hmid, rfl⟩, files, hfiles, rfl⟩
    exact ⟨made, files, hmade, ⟨mid, hmid, files, hfiles, rfl⟩, rfl⟩
  · rintro ⟨made, files, hmade, ⟨mid, hmid, files', hfiles, hrest⟩, rfl⟩
    obtain rfl := Except.ok.inj hrest
    exact ⟨(), _, ⟨made, hmade, rfl⟩, (), _, ⟨mid, hmid, rfl⟩, files', hfiles, rfl⟩

/-- Scores handed on are scanned when the call went well. -/
theorem handOn_eq_scanned_iff {pom : Pom} {scores : Scores} {host' : Host} :
    handOn w.deliver pom scores host = (.scanned, host') ↔
      ∃ made files, host.files.createDirectories w.directory = .ok made ∧
        made.writeAll (w.filesFor (pom, scores)) = .ok files ∧ host' = { host with files } := by
  rw [← write_eq_ok_iff hpretend, handOn, deliver]
  simp only [EStateM.adaptExcept]
  cases w.write pom scores host with
  | ok a t => simp
  | error e t => simp

/-- Calls from where the directory is there go well when all files can be written. -/
theorem handOnAll_eq_iff_of_made {calls : List (Pom × Scores)} {host' : Host}
    (hmade : host.files.createDirectories w.directory = .ok host.files) :
    handOnAll w.deliver calls host = (calls.map fun _ => .scanned, host') ↔
      ∃ files, host.files.writeAll (calls.flatMap w.filesFor) = .ok files ∧
        host' = { host with files } := by
  induction calls generalizing host with
  | nil => simp [handOnAll, Files.writeAll, eq_comm]
  | cons call calls ih =>
    rw [handOnAll_cons_eq_iff, List.flatMap_cons]
    simp only [handOn_eq_scanned_iff hpretend, Files.writeAll_append_eq_ok_iff]
    constructor
    · rintro ⟨_, ⟨made, mid, hmade', hmid, rfl⟩, hrest⟩
      obtain rfl := Except.ok.inj (hmade.symm.trans hmade')
      obtain ⟨files, hfiles, rfl⟩ := (ih (Files.createDirectories_again hmade hmid)).1 hrest
      exact ⟨files, ⟨mid, hmid, hfiles⟩, rfl⟩
    · rintro ⟨files, ⟨mid, hmid, hfiles⟩, rfl⟩
      exact ⟨_, ⟨host.files, mid, hmade, hmid, rfl⟩,
        (ih (Files.createDirectories_again hmade hmid)).2 ⟨files, hfiles, rfl⟩⟩

/-- Calls go well when the directory can be made and all files can be written. -/
theorem handOnAll_eq_iff {calls : List (Pom × Scores)} {host' : Host} (hne : calls ≠ []) :
    handOnAll w.deliver calls host = (calls.map fun _ => .scanned, host') ↔
      ∃ made files, host.files.createDirectories w.directory = .ok made ∧
        made.writeAll (calls.flatMap w.filesFor) = .ok files ∧ host' = { host with files } := by
  obtain ⟨call, calls, rfl⟩ := List.exists_cons_of_ne_nil hne
  rw [handOnAll_cons_eq_iff, List.flatMap_cons]
  simp only [handOn_eq_scanned_iff hpretend, Files.writeAll_append_eq_ok_iff]
  constructor
  · rintro ⟨_, ⟨made, mid, hmade, hmid, rfl⟩, hrest⟩
    obtain ⟨files, hfiles, rfl⟩ :=
      (handOnAll_eq_iff_of_made hpretend (Files.createDirectories_again hmade hmid)).1 hrest
    exact ⟨made, files, hmade, ⟨mid, hmid, hfiles⟩, rfl⟩
  · rintro ⟨made, files, hmade, ⟨mid, hmid, hfiles⟩, rfl⟩
    exact ⟨_, ⟨made, mid, hmade, hmid, rfl⟩, (handOnAll_eq_iff_of_made hpretend
      (Files.createDirectories_again hmade hmid)).2 ⟨files, hfiles, rfl⟩⟩

/-- The files of calls that went well are all there, and other orders of the calls lead to the same
files. -/
theorem kept_of_scanned {calls : List (Pom × Scores)} {host' : Host}
    (hapart : w.FilesApart host.files (calls.map (·.1)))
    (h : handOnAll w.deliver calls host = (calls.map fun _ => .scanned, host')) :
    (∀ call ∈ calls, ∀ file ∈ w.filesFor call,
      host'.files.readText file.1 = .ok file.2) ∧
      ∀ calls', calls'.Perm calls →
        handOnAll w.deliver calls' host = (calls'.map fun _ => .scanned, host') := by
  by_cases hne : calls = []
  · subst hne
    refine ⟨by simp, fun calls' hperm => ?_⟩
    obtain rfl := List.perm_nil.1 hperm
    exact h
  · obtain ⟨made, files, hmade, hfiles, rfl⟩ := (handOnAll_eq_iff hpretend hne).1 h
    have hpaths : ∀ calls : List (Pom × Scores), (calls.flatMap w.filesFor).map (·.1) =
        (calls.map (·.1)).flatMap w.pathsFor := fun calls => by
      rw [List.map_flatMap, List.flatMap_map]
      rfl
    have hpairwise : ((calls.flatMap w.filesFor).map (·.1)).Pairwise made.Apart := by
      rw [hpaths]
      exact hapart made hmade
    constructor
    · intro call hcall file hfile
      exact Files.readText_of_writeAll hpairwise hfiles file
        (List.mem_flatMap.2 ⟨call, hcall, hfile⟩)
    · intro calls' hperm
      have hne' : calls' ≠ [] := by
        rintro rfl
        exact hne (List.nil_perm.1 hperm)
      exact (handOnAll_eq_iff hpretend hne').2 ⟨made, files, hmade,
        Files.writeAll_perm (hperm.symm.flatMap_right _) hpairwise hfiles, rfl⟩

end

/-! ### Data directories that hold nothing but files -/

section

variable {loc : Location} (hw : w.directory = Files.pathOf loc)

/-- The names of the files for a project. -/
def namesFor (pom : Pom) : List String :=
  [pom.coordinates.artifact ++ ".json", pom.coordinates.artifact ++ ".wc"]

theorem names_ne (a b : String) : a ++ ".json" ≠ b ++ ".wc" := by
  intro h
  have hlast := congrArg (fun s : String => s.toList.getLast?) h
  simp at hlast

include hw

theorem pathsFor_eq (hloc : ∀ n ∈ loc, Files.isUsable n = true) {pom : Pom}
    (hnames : ∀ n ∈ namesFor pom, Files.isUsable n = true) :
    w.pathsFor pom = (namesFor pom).map fun n => Files.pathOf (loc ++ [n]) := by
  have hchild : ∀ n ∈ namesFor pom, w.directory.child n = Files.pathOf (loc ++ [n]) :=
    fun n hn => by
      rw [hw, Files.child_pathOf (fun m hm => Files.isName_of_isUsable (hloc m hm))
        (Files.isName_of_isUsable (hnames n hn))]
  rw [← List.map_congr_left hchild]
  rfl

/-- The files for projects with different artifact ids are different files in a directory that holds
nothing but files. -/
theorem filesApart_of_nodup {files : Files} (hplain : files.IsPlain loc) {poms : List Pom}
    (hnames : ∀ pom ∈ poms, ∀ n ∈ namesFor pom, Files.isUsable n = true)
    (hdifferent : (poms.map (·.coordinates.artifact)).Nodup) : w.FilesApart files poms := by
  intro made hmade
  rw [hw] at hmade
  obtain rfl := Except.ok.inj
    ((Files.createDirectories_of_isDirectory hplain.isDirectory).symm.trans hmade)
  have hpaths : poms.flatMap w.pathsFor =
      (poms.flatMap namesFor).map fun n => Files.pathOf (loc ++ [n]) := by
    rw [List.map_flatMap]
    exact List.flatMap_congr fun pom hpom => pathsFor_eq hw hplain.names (hnames pom hpom)
  have hnodup : (poms.flatMap namesFor).Pairwise (· ≠ ·) := by
    refine List.pairwise_flatMap.2 ⟨fun pom _ => ?_, (List.pairwise_map.1 hdifferent).imp ?_⟩
    · simp [namesFor]
    · intro a b hne
      simp [namesFor, names_ne, (names_ne _ _).symm, hne]
  rw [hpaths, List.pairwise_map]
  refine hnodup.imp_of_mem fun {n n'} hn hn' hne => ?_
  obtain ⟨pom, hpom, hn⟩ := List.mem_flatMap.1 hn
  obtain ⟨pom', hpom', hn'⟩ := List.mem_flatMap.1 hn'
  exact hplain.apart (hnames pom hpom n hn) (hnames pom' hpom' n' hn') hne

/-- A call of the writer goes well in such a directory, and changes nothing elsewhere. -/
theorem exists_handOn (hpretend : w.pretend = false) (hplain : host.files.IsPlain loc) {pom : Pom}
    (hnames : ∀ n ∈ namesFor pom, Files.isUsable n = true) (scores : Scores) :
    ∃ host', handOn w.deliver pom scores host = (.scanned, host') ∧ host'.files.IsPlain loc ∧
      (∀ l, Node.Apart loc l → host'.files.top.get? l = host.files.top.get? l) ∧
      host'.files.readText (w.chartPath pom) = .ok (w.chartFor pom scores) := by
  have hpaths := pathsFor_eq hw hplain.names hnames
  obtain ⟨hchart, hlisting⟩ : w.chartPath pom = _ ∧ w.listingPath pom = _ := by
    simpa [pathsFor, namesFor] using hpaths
  simp only [namesFor, List.forall_mem_cons] at hnames
  obtain ⟨hchartName, hlistingName, -⟩ := hnames
  obtain ⟨mid, hmid, hmidPlain, hmidSame⟩ :=
    hplain.exists_write hchartName (w.chartFor pom scores).toUTF8
  obtain ⟨files, hfiles, hfilesPlain, hfilesSame⟩ :=
    hmidPlain.exists_write hlistingName scores.listing.toUTF8
  have hmade : host.files.createDirectories w.directory = .ok host.files := by
    rw [hw]
    exact Files.createDirectories_of_isDirectory hplain.isDirectory
  refine ⟨{ host with files },
    (handOn_eq_scanned_iff hpretend).2 ⟨host.files, files, hmade, ?_, rfl⟩, hfilesPlain,
    fun l hl => (hfilesSame l hl).trans (hmidSame l hl), ?_⟩
  · rw [filesFor, hchart, hlisting]
    simp only [Files.writeAll_cons_eq_ok_iff]
    exact ⟨mid, hmid, files, hfiles, rfl⟩
  · rw [hchart]
    have hread := Files.read_of_write hmid
    refine Files.readText_of_read (Files.read_of_write_of_apart hfiles ?_ hread)
    exact hmidPlain.apart hlistingName hchartName (names_ne _ _).symm

end

/-- What a project scores whose only source is an empty file. -/
theorem ofProject_of_only {files : Files} {pom : Pom} (loc : Location) (name : String)
    (hdir : files.top.get? loc = some (.directory [(name, .ofText "")]))
    (hloc : ∀ n ∈ loc, Files.isUsable n = true) (hname : Files.isUsable name = true)
    (hvisible : name.toList.head? ≠ some '.') (hroot : Scores.sourceRoot pom = Files.pathOf loc)
    (hrel : (Files.pathOf (loc ++ [name])).stripStart? (Files.pathOf loc) = some ⟨[name]⟩) :
    Scores.ofProject .words none files pom = .ok (some [(⟨[name]⟩, 0)]) := by
  have hplain : files.IsPlain loc := by
    refine ⟨hloc, _, hdir, fun name' n hn => ?_⟩
    by_cases hsame : name' = name
    · obtain rfl : .ofText "" = n := by simpa [hsame] using hn
      rfl
    · simp [List.lookup_cons, beq_eq_false_iff_ne.2 hsame] at hn
  have hplace : files.place (Files.pathOf loc) = .ok ⟨loc, true⟩ := by
    have hplace := Files.place_below_directory hdir hloc (List.forall_mem_nil _)
    rwa [List.append_nil, Files.follow] at hplace
  have hchild : (Files.pathOf loc).child name = Files.pathOf (loc ++ [name]) :=
    Files.child_pathOf (fun n hn => Files.isName_of_isUsable (hloc n hn))
      (Files.isName_of_isUsable hname)
  have hselected : Walk.sortedFiles files .sources (Files.pathOf loc) none =
      .ok [Files.pathOf (loc ++ [name])] := by
    rw [Walk.sortedFiles, Walk.sights, hplace]
    simp only [hdir]
    rw [Walk.below]
    simp [hdir, Walk.resolve, Walk.passedOver, WalkOptions.sources, Walk.filesOf, bind,
      Except.bind, pure, Except.pure, hvisible, Node.isDirectory, Node.entries, Node.ofText, hchild]
  have hread : files.read (Files.pathOf (loc ++ [name])) = .ok "".toUTF8 := by
    refine Files.read_eq_ok_iff.2 ⟨loc ++ [name], false, (hplain.leadsTo_iff hname).2 rfl, ?_⟩
    rw [Files.get?_concat_eq hdir]
    simp [Node.ofText]
  have hscore : Scorer.words files (Files.pathOf (loc ++ [name])) = .ok 0 := by
    have hnone : Text.wordCount (Text.decode "".toUTF8) = 0 := by
      simp [Text.decode, Text.decodeFrom]
    rw [Scorer.words, Scorer.countWords, hread]
    simp only [hnone]
    rfl
  rw [Scores.ofProject, ← Scores.sourceRoot, hroot, hplain.isDirectory, hselected]
  simp [Scores.ofFiles, hscore, hrel, Except.mapError, bind, Except.bind, pure, Except.pure,
    Scores.put, Ordered.put]

/-- Two projects with an empty source file each, and a directory for data. -/
def twoProjects : Host :=
  { (default : Host) with
    files := ⟨.directory
      [("a", withSources [("A.java", .ofText "")]), ("b", withSources [("B.java", .ofText "")]),
        ("data", .emptyDirectory)], []⟩ }

/-- A writer to the directory for data. -/
def dataWriter : StatisticsWriter :=
  ⟨Files.pathOf ["data"], false, false⟩

/-- A project in the directory of a name. -/
def projectOf (group artifact dir : String) : Pom :=
  ⟨Files.pathOf [dir, Pom.fileName], ⟨group, artifact, "1.0.0"⟩, "jar"⟩

theorem isPlain_twoProjects : twoProjects.files.IsPlain ["data"] :=
  ⟨by decide, [], rfl, by simp⟩

theorem sourceRoot_projectOf (group artifact : String) : ∀ dir ∈ ["a", "b"],
    Scores.sourceRoot (projectOf group artifact dir) =
      Files.pathOf [dir, "src", "main", "java"] := by
  have hroot : ∀ dir ∈ ["a", "b"],
      ((Files.pathOf [dir, Pom.fileName]).parent?.getD (Path.ofString ".")).join
        Scores.sourceDirectory = Files.pathOf [dir, "src", "main", "java"] := by decide +kernel
  exact hroot

/-- What the projects score where nothing but the data is changed. -/
theorem ofProject_twoProjects {files : Files} (group artifact : String)
    (hfiles : ∀ l, Node.Apart ["data"] l → files.top.get? l = twoProjects.files.top.get? l) :
    Scores.ofProject .words none files (projectOf group artifact "a") =
        .ok (some [(⟨["A.java"]⟩, 0)]) ∧
      Scores.ofProject .words none files (projectOf group artifact "b") =
        .ok (some [(⟨["B.java"]⟩, 0)]) := by
  constructor
  · refine ofProject_of_only ["a", "src", "main", "java"] "A.java" ?_ (by decide) (by decide)
      (by decide) (sourceRoot_projectOf group artifact "a" (by simp)) (by decide +kernel)
    rw [hfiles _ (by simp [Node.Apart])]
    rfl
  · refine ofProject_of_only ["b", "src", "main", "java"] "B.java" ?_ (by decide) (by decide)
      (by decide) (sourceRoot_projectOf group artifact "b" (by simp)) (by decide +kernel)
    rw [hfiles _ (by simp [Node.Apart])]
    rfl

/-- A job with two projects goes well, and the chart that was written last is there. -/
theorem exists_run_twoProjects (first second : Pom) {scores scores' : Scores}
    (hfirst : ∀ n ∈ namesFor first, Files.isUsable n = true)
    (hsecond : ∀ n ∈ namesFor second, Files.isUsable n = true)
    (hqueue : [first, second].filter (fun pom => !pom.isAggregator) = [first, second])
    (hscores : ∀ files : Files,
      (∀ l, Node.Apart ["data"] l → files.top.get? l = twoProjects.files.top.get? l) →
        Scores.ofProject .words none files first = .ok (some scores) ∧
          Scores.ofProject .words none files second = .ok (some scores')) :
    ∃ host', dataWriter.run none [first, second] twoProjects = .ok ⟨2, 0, 0⟩ host' ∧
      host'.files.readText (dataWriter.chartPath second) =
        .ok (dataWriter.chartFor second scores') := by
  obtain ⟨mid, hmid, hmidPlain, hmidSame, -⟩ :=
    exists_handOn (w := dataWriter) rfl rfl isPlain_twoProjects hfirst scores
  obtain ⟨host', hhost', -, -, hread⟩ :=
    exists_handOn (w := dataWriter) rfl rfl hmidPlain hsecond scores'
  refine ⟨host', ?_, hread⟩
  rw [run_eq, scanProjects, hqueue]
  simp only [scanQueue, scanProject, (hscores twoProjects.files fun _ _ => rfl).1, hmid,
    (hscores mid.files hmidSame).2, hhost']
  rfl

/-- The statistics of all projects are there, each under its own name, if the files for them are
different files: whatever the schedule of the workers, when nothing was skipped or failed the files
for each project hold what it came to, and the calls of the writer lead to the same files in any
order. -/
theorem statistics_kept (hpretend : w.pretend = false) (glob? : Option String) (poms : List Pom)
    (hapart : w.FilesApart host.files (poms.filter fun pom => !pom.isAggregator)) {threads : Nat}
    (hthreads : 0 < threads) {schedule : List Nat} {p : Pool Host}
    (hrun : (start threads poms host).run Host.files .words glob? w.deliver schedule = p)
    (hfinished : p.finished = true) (hskipped : p.summary.skipped = 0)
    (hfailed : p.summary.failed = 0) :
    (p.delivered.map (·.1)).Perm (poms.filter fun pom => !pom.isAggregator) ∧
      (∀ pom scores, (pom, scores) ∈ p.delivered →
        (∃ earlier, earlier <+: p.delivered ∧
          Scores.ofProject .words glob? (handOnAll w.deliver earlier host).2.files pom =
            .ok (some scores)) ∧
        p.shared.files.readText (w.chartPath pom) = .ok (w.chartFor pom scores) ∧
        p.shared.files.readText (w.listingPath pom) = .ok scores.listing) ∧
      ∀ calls, calls.Perm p.delivered →
        handOnAll w.deliver calls host = (calls.map fun _ => .scanned, p.shared) := by
  have hworkers : p.workers ≠ [] := by
    rw [← hrun]
    exact workers_start_ne_nil hthreads poms schedule
  obtain ⟨passed, counted, hp⟩ : ∃ passed counted, Ledger Host.files .words glob? w.deliver host
      (poms.filter fun pom => !pom.isAggregator) p passed counted := by
    rw [← hrun]
    exact (ledger_start threads poms).run schedule
  obtain ⟨hdelivered, hscanned⟩ := hp.of_all_scanned hworkers hfinished hskipped hfailed
  have hwell := handOnAll_eq_of_forall_scanned hscanned
  rw [← hp.shared] at hwell
  have hapart' : w.FilesApart host.files (p.delivered.map (·.1)) := fun made hmade =>
    ((hdelivered.flatMap_right _).pairwise_iff Files.Apart.symm).2 (hapart made hmade)
  obtain ⟨hkept, horders⟩ := kept_of_scanned hpretend hapart' hwell
  refine ⟨hdelivered, fun pom scores hcall => ?_, horders⟩
  have hfiles := hkept _ hcall
  exact ⟨hp.scored (pom, scores) (List.mem_append_left _ hcall),
    hfiles (w.chartPath pom, w.chartFor pom scores) (by simp [filesFor]),
    hfiles (w.listingPath pom, scores.listing) (by simp [filesFor])⟩

theorem statistics_kept_of_two :
    ∃ schedule p, (start 1 [projectAt "a" "jar", projectAt "b" "jar"] twoProjects).run Host.files
        .words none dataWriter.deliver schedule = p ∧
      p.finished = true ∧
      (p.delivered.map (·.1)).Perm [projectAt "a" "jar", projectAt "b" "jar"] ∧
      ∀ pom scores, (pom, scores) ∈ p.delivered →
        p.shared.files.readText (dataWriter.chartPath pom) =
          .ok (dataWriter.chartFor pom scores) := by
  have hqueue : [projectAt "a" "jar", projectAt "b" "jar"].filter (fun pom => !pom.isAggregator) =
      [projectAt "a" "jar", projectAt "b" "jar"] := by decide +kernel
  obtain ⟨schedule, hfinished⟩ := exists_finished_run Host.files .words none dataWriter.deliver
    (start 1 [projectAt "a" "jar", projectAt "b" "jar"] twoProjects)
  obtain ⟨host', hjob, -⟩ := exists_run_twoProjects (projectAt "a" "jar") (projectAt "b" "jar")
    (by decide) (by decide) hqueue fun files hfiles =>
      ⟨(ofProject_twoProjects "org.kivakit" "a" hfiles).1,
        (ofProject_twoProjects "org.kivakit" "b" hfiles).2⟩
  have hsummary := (EStateM.Result.ok.inj
    ((scanProjects_of_finished _ schedule hfinished).symm.trans hjob)).1
  have hapart : dataWriter.FilesApart twoProjects.files
      ([projectAt "a" "jar", projectAt "b" "jar"].filter fun pom => !pom.isAggregator) := by
    rw [hqueue]
    exact filesApart_of_nodup rfl isPlain_twoProjects (by decide) (by decide)
  obtain ⟨hdelivered, hkept, -⟩ := statistics_kept rfl none _ hapart Nat.one_pos rfl hfinished
    (by rw [hsummary]) (by rw [hsummary])
  rw [hqueue] at hdelivered
  exact ⟨schedule, _, rfl, hfinished, hdelivered, fun pom scores hcall =>
    (hkept pom scores hcall).2.1⟩

/-- A project of a family. -/
def telenavCore : Pom :=
  projectOf "com.telenav.kivakit" "core" "a"

/-- Another of the same family, with the same artifact id. -/
def kivakitCore : Pom :=
  projectOf "org.kivakit" "core" "b"

/-- Both in checkouts of their own. -/
def twoCores : Workspace :=
  .ofFinds (Files.pathOf []) [Files.pathOf ["a"], Files.pathOf ["b"]] [telenavCore, kivakitCore]

/-- Projects that share an artifact id share their files: the job goes well for both, and the files
hold what was written last. -/
theorem statistics_overwritten :
    twoCores.projectsByFamily twoCores.checkouts = [(⟨"kivakit"⟩, [telenavCore, kivakitCore])] ∧
      Scores.ofProject .words none twoProjects.files telenavCore =
        .ok (some [(⟨["A.java"]⟩, 0)]) ∧
      ∃ host host',
        dataWriter.run none [telenavCore, kivakitCore] twoProjects = .ok ⟨2, 0, 0⟩ host ∧
        host.files.readText (dataWriter.chartPath telenavCore) ≠
          .ok (dataWriter.chartFor telenavCore [(⟨["A.java"]⟩, 0)]) ∧
        dataWriter.run none [kivakitCore, telenavCore] twoProjects = .ok ⟨2, 0, 0⟩ host' ∧
        host'.files.readText (dataWriter.chartPath telenavCore) =
          .ok (dataWriter.chartFor telenavCore [(⟨["A.java"]⟩, 0)]) := by
  have hother : dataWriter.chartFor kivakitCore [(⟨["B.java"]⟩, 0)] ≠
      dataWriter.chartFor telenavCore [(⟨["A.java"]⟩, 0)] := by decide +kernel
  have hscores : ∀ files : Files,
      (∀ l, Node.Apart ["data"] l → files.top.get? l = twoProjects.files.top.get? l) →
        Scores.ofProject .words none files telenavCore = .ok (some [(⟨["A.java"]⟩, 0)]) ∧
          Scores.ofProject .words none files kivakitCore = .ok (some [(⟨["B.java"]⟩, 0)]) :=
    fun files hfiles => ⟨(ofProject_twoProjects "com.telenav.kivakit" "core" hfiles).1,
      (ofProject_twoProjects "org.kivakit" "core" hfiles).2⟩
  obtain ⟨host, hjob, hread⟩ := exists_run_twoProjects telenavCore kivakitCore (by decide)
    (by decide) (by decide +kernel) hscores
  obtain ⟨host', hjob', hread'⟩ := exists_run_twoProjects kivakitCore telenavCore (by decide)
    (by decide) (by decide +kernel) fun files hfiles => (hscores files hfiles).symm
  refine ⟨by decide +kernel, (hscores twoProjects.files fun _ _ => rfl).1, host, host', hjob, ?_,
    hjob', hread'⟩
  intro hkept
  exact hother (Except.ok.inj (hread.symm.trans hkept))

end StatisticsWriter

end Grove
