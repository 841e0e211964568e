import Grove.Proofs.Assignment
import Grove.Proofs.Walks

/-!
# What a scan finds

A scan walks a directory and makes a workspace of the checkout roots and the project files it comes
across. The workspace is an index of them: each checkout root and each project that can be read is
there, each project in the innermost checkout around it, and nothing else. The walk may come across
its sights in any order.

## What is proved

* `Finds.exists_descend` — where a project that was found lies.
* `proper_ofSights` — a walk yields checkout roots and projects each by one path.
* `indexes_ofSights` — the workspace made of the sights of a walk is an index of them.
* `scan_indexes` — a scan of a directory answers that workspace, in whatever order the directory is
  walked.
-/

namespace Grove.Workspace

/-- The projects whose files are among the sights of a walk and can be read. -/
def pomsOf (files : Files) (sights : List Walk.Sight) : List Pom :=
  (projectFiles sights).filterMap fun p => (Pom.ofFile files p).toOption

/-- The workspace of a root directory and the sights of a walk from there. -/
def ofSights (files : Files) (root : Path) (sights : List Walk.Sight) : Workspace :=
  ofFinds root ((Walk.directoriesOf sights).filter (Git.isCheckoutRoot files))
    (pomsOf files sights)

/-- A walk came across the project: it is what can be read from a file with the name of project
files. -/
def Finds (files : Files) (sights : List Walk.Sight) (pom : Pom) : Prop :=
  ∃ p, .file p ∈ sights ∧ p.fileName? = some Pom.fileName ∧ Pom.ofFile files p = .ok pom

/-- The workspace holds what a walk from a root directory came across, each project in the innermost
checkout around it. -/
structure Indexes (w : Workspace) (files : Files) (root : Path) (sights : List Walk.Sight) :
    Prop where
  outermost : w.root = .outermost root
  /-- The checkouts are those of the root and of the directories that hold an entry `.git`. -/
  roots : ∀ dir, (∃ c ∈ w.checkouts, c.root = dir) ↔
    dir = root ∨ .directory dir ∈ sights ∧ Git.isCheckoutRoot files dir = true
  made : ∀ c ∈ w.checkouts, c = checkoutAt root c.root
  increasing : Ordered.Increasing Checkout.order w.checkouts
  projects : ∀ pom, pom ∈ w.projects ↔ Finds files sights pom
  once : w.projects.Nodup
  /-- A project is listed in one checkout, which is the one that its directory lies in. -/
  owner : ∀ pom ∈ w.projects, ∃ c, w.containing? pom.directory = some c ∧
    ∀ c' ∈ w.checkouts, pom ∈ w.projectsOf c' ↔ c' = c
  /-- The checkout that a directory lies in is the innermost one around it. -/
  containing : ∀ dir c, w.containing? dir = some c ↔
    c ∈ w.checkouts ∧ c.root.Encloses dir ∧
      ∀ c' ∈ w.checkouts, c'.root.Encloses dir → c'.root.Encloses c.root
  sorted : ∀ c ∈ w.checkouts, (w.projectsOf c).Pairwise fun a b => a.path.order b.path = .lt
  withProjects : Ordered.Increasing Checkout.order w.withProjects
  withoutProjects : Ordered.Increasing Checkout.order w.withoutProjects
  apart : w.withProjects.Disjoint w.withoutProjects
  cover : ∀ c, c ∈ w.root :: w.withoutProjects ++ w.withProjects ↔ c ∈ w.checkouts
  /-- A project is the answer for its directory when it was found there, and else nothing is. -/
  projectIn : ∀ dir pom,
    w.projectIn? dir = some pom ↔ Finds files sights pom ∧ pom.directory.alike dir = true

/-! ### Kinds of checkout -/

section

variable {w : Workspace}

theorem withProjects_sublist (w : Workspace) : w.withProjects.Sublist w.checkouts :=
  List.filter_sublist.map _

theorem withoutProjects_sublist (w : Workspace) : w.withoutProjects.Sublist w.checkouts :=
  List.filter_sublist.map _

/-- A checkout is not both one with projects and one without. -/
theorem disjoint_withProjects (hw : w.Lawful) : w.withProjects.Disjoint w.withoutProjects := by
  intro c hwith hwithout
  obtain ⟨⟨c₁, poms⟩, hmem, rfl⟩ := List.mem_map.1 hwith
  obtain ⟨⟨c₂, poms'⟩, hmem', heq⟩ := List.mem_map.1 hwithout
  obtain ⟨hmem, hsome⟩ := List.mem_filter.1 hmem
  obtain ⟨hmem', hnone⟩ := List.mem_filter.1 hmem'
  have hone : (c₁, poms) = (c₂, poms') :=
    List.inj_on_of_nodup_map hw.increasing.nodup hmem hmem' heq.symm
  obtain rfl := (Prod.mk.inj hone).2
  simp_all

end

/-! ### Where things are found -/

theorem mem_pomsOf {files : Files} {sights : List Walk.Sight} {pom : Pom} :
    pom ∈ pomsOf files sights ↔ Finds files sights pom := by
  simp only [pomsOf, projectFiles, Walk.filesOf, List.mem_filterMap, List.mem_filter,
    decide_eq_true_iff, Finds, and_assoc]
  refine exists_congr fun p => and_congr ⟨?_, fun h => ⟨_, h, rfl⟩⟩ (and_congr_right fun _ => ?_)
  · rintro ⟨s, hs, heq⟩
    cases s <;> simp_all
  · cases Pom.ofFile files p <;> simp [Except.toOption]

theorem mem_directoriesOf {sights : List Walk.Sight} {dir : Path} :
    dir ∈ Walk.directoriesOf sights ↔ .directory dir ∈ sights := by
  simp only [Walk.directoriesOf, List.mem_filterMap]
  refine ⟨?_, fun h => ⟨_, h, rfl⟩⟩
  rintro ⟨s, hs, heq⟩
  cases s <;> simp_all

/-- What is read from a file is at its path. -/
theorem path_of_ofFile {files : Files} {p : Path} {pom : Pom} (h : Pom.ofFile files p = .ok pom) :
    pom.path = p := by
  rw [Pom.ofFile] at h
  split at h
  · simp at h
  · next xml _ =>
    split at h
    · next pom' hparse =>
      obtain rfl := Except.ok.inj h
      simp only [Pom.parse, bind, Except.bind] at hparse
      repeat (split at hparse; · simp at hparse)
      rw [← Except.ok.inj hparse]
    · simp at h

theorem path_of_toOption {files : Files} {p : Path} {pom : Pom}
    (h : pom ∈ (Pom.ofFile files p).toOption) : pom.path = p := by
  cases hread : Pom.ofFile files p with
  | error e => simp [hread, Except.toOption] at h
  | ok pom' =>
    obtain rfl : pom' = pom := by simpa [hread, Except.toOption] using h
    exact path_of_ofFile hread

/-- The path of a project that was found tells what is read. -/
theorem Finds.eq_of_path {files : Files} {sights : List Walk.Sight} {a b : Pom}
    (ha : Finds files sights a) (hb : Finds files sights b) (h : a.path = b.path) : a = b := by
  obtain ⟨p, -, -, hread⟩ := ha
  obtain ⟨q, -, -, hread'⟩ := hb
  rw [path_of_ofFile hread, path_of_ofFile hread'] at h
  rw [h, hread'] at hread
  exact (Except.ok.inj hread).symm

section

variable {files : Files} {root : Path} {es : List (String × Node)}
  (hes : (Node.directory es).wellNamed = true) {sights : List Walk.Sight}
  (h : Walk.Delivers root (.directory es) sights)

include hes h

/-- A directory that was walked lies below the root, and so do the directories on the way. -/
theorem exists_descend_of_directory {dir : Path} (hdir : .directory dir ∈ sights) :
    ∃ loc, (∀ name ∈ loc, Path.isName name = true) ∧ dir = root.descend loc ∧
      ∀ loc', loc' <+: loc → .directory (root.descend loc') ∈ sights := by
  obtain ⟨loc, n, hreach, heq⟩ := (h.each _).1 hdir
  cases n with
  | directory es' =>
    refine ⟨loc, Walk.isName_of_reach? hes hreach, Walk.Sight.directory.inj heq, ?_⟩
    rintro loc' ⟨rest, rfl⟩
    obtain ⟨es'', hreach'⟩ := Walk.exists_reach?_of_append hreach (.inr rfl)
    exact (h.each _).2 ⟨loc', _, hreach', rfl⟩
  | file content executable => simp [Walk.Sight.of] at heq
  | link target => simp [Walk.Sight.of] at heq

/-- A project that was found lies in a directory that was walked. -/
theorem Finds.exists_descend {pom : Pom} (hfound : Finds files sights pom) :
    ∃ loc, (∀ name ∈ loc ++ [Pom.fileName], Path.isName name = true) ∧
      .directory (root.descend loc) ∈ sights ∧ pom.path = root.descend (loc ++ [Pom.fileName]) ∧
      pom.directory.components = (root.descend loc).components := by
  obtain ⟨p, hp, hfile, hread⟩ := hfound
  obtain ⟨loc, n, hreach, heq⟩ := (h.each _).1 hp
  have hnames := Walk.isName_of_reach? hes hreach
  have hdescend : p = root.descend loc := by cases n <;> simp_all [Walk.Sight.of]
  rcases List.eq_nil_or_concat loc with rfl | ⟨dir, name, rfl⟩
  · obtain rfl := Option.some.inj hreach
    simp [Walk.Sight.of] at heq
  · rw [List.concat_eq_append] at hreach hnames hdescend
    have hname : Path.isName name = true :=
      hnames name (List.mem_append_right _ List.mem_cons_self)
    have hpath : p = (root.descend dir).child name := by
      rw [hdescend, Path.descend_append]
      rfl
    obtain rfl : name = Pom.fileName := by
      rw [hpath, Path.fileName?_child _ hname] at hfile
      exact Option.some.inj hfile
    obtain ⟨q, hparent, hcomponents⟩ := Path.exists_parent?_child (root.descend dir) hname
    obtain ⟨es', hdir⟩ := Walk.exists_reach?_of_append hreach (.inl (by simp))
    refine ⟨dir, hnames, (h.each _).2 ⟨dir, _, hdir, rfl⟩, ?_, ?_⟩
    · rw [path_of_ofFile hread, hdescend]
    · rw [Pom.directory, path_of_ofFile hread, hpath, hparent, Option.getD_some, hcomponents]

variable (files) in
/-- A walk yields checkout roots and projects each by one path. -/
theorem proper_ofSights (hroot : root.components ≠ []) :
    Proper root ((Walk.directoriesOf sights).filter (Git.isCheckoutRoot files))
      (pomsOf files sights) := by
  have hwalked : ∀ dir ∈ (Walk.directoriesOf sights).filter (Git.isCheckoutRoot files) ++ [root],
      ∃ loc, (∀ name ∈ loc, Path.isName name = true) ∧ dir = root.descend loc := by
    intro dir hdir
    rcases List.mem_append.1 hdir with hdir | hdir
    · obtain ⟨loc, hnames, hdescend, -⟩ :=
        exists_descend_of_directory hes h (mem_directoriesOf.1 (List.mem_filter.1 hdir).1)
      exact ⟨loc, hnames, hdescend⟩
    · exact ⟨[], by simp, by simpa using hdir⟩
  refine ⟨hroot, fun dir hdir => ?_, fun a ha b hb halike => ?_, fun pom hpom => ?_,
    fun a ha b hb halike => ?_, fun a ha b hb halike => ?_, ?_⟩
  · obtain ⟨loc, hnames, rfl⟩ := hwalked dir (List.mem_append_left _ hdir)
    exact root.encloses_descend hnames
  · obtain ⟨loc, hnames, rfl⟩ := hwalked a ha
    obtain ⟨loc', hnames', rfl⟩ := hwalked b hb
    rw [root.descend_injective hnames hnames' (by simpa [Path.alike] using halike)]
  · obtain ⟨loc, hnames, -, -, hdirectory⟩ := (mem_pomsOf.1 hpom).exists_descend hes h
    rw [Path.Encloses, hdirectory]
    exact root.encloses_descend (List.forall_mem_append.1 hnames).1
  · -- projects of one directory have one path, so the same is read for both
    have hfoundA := mem_pomsOf.1 ha
    have hfoundB := mem_pomsOf.1 hb
    obtain ⟨loc, hnames, -, hpath, hdirectory⟩ := hfoundA.exists_descend hes h
    obtain ⟨loc', hnames', -, hpath', hdirectory'⟩ := hfoundB.exists_descend hes h
    have hsame : loc = loc' := by
      refine root.descend_injective (List.forall_mem_append.1 hnames).1
        (List.forall_mem_append.1 hnames').1 ?_
      rw [← hdirectory, ← hdirectory']
      simpa [Path.alike] using halike
    exact hfoundA.eq_of_path hfoundB (by rw [hpath, hpath', hsame])
  · obtain ⟨loc, hnames, -, hpath, hdirectory⟩ := (mem_pomsOf.1 ha).exists_descend hes h
    obtain ⟨loc', hnames', -, hpath', hdirectory'⟩ := (mem_pomsOf.1 hb).exists_descend hes h
    have hsame : loc ++ [Pom.fileName] = loc' ++ [Pom.fileName] := by
      refine root.descend_injective hnames hnames' ?_
      rw [← hpath, ← hpath']
      simpa [Path.alike] using halike
    rw [Path.alike, hdirectory, hdirectory', List.append_cancel_right hsame, decide_eq_true_iff]
  · refine List.Nodup.filterMap (fun p p' pom hp hp' => ?_) (h.nodup_filesOf.filter _)
    rw [← path_of_toOption hp, ← path_of_toOption hp']

/-- The workspace made of the sights of a walk is an index of them. -/
theorem indexes_ofSights (hroot : root.components ≠ []) :
    (ofSights files root sights).Indexes files root sights := by
  have hproper : Proper root _ _ := proper_ofSights files hes h hroot
  have hlawful : (ofSights files root sights).Lawful := lawful_ofFinds _ _ _
  have hperm : (ofSights files root sights).projects.Perm (pomsOf files sights) :=
    projects_perm hproper
  constructor
  case outermost => rfl
  case roots =>
    intro dir
    rw [ofSights, exists_checkout_iff hproper, List.mem_filter, mem_directoriesOf]
  case made => exact fun c hc => eq_checkoutAt hc
  case increasing => exact hlawful.increasing
  case projects => exact fun pom => hperm.mem_iff.trans mem_pomsOf
  case once => exact hperm.nodup_iff.2 hproper.poms_once
  case owner =>
    intro pom hpom
    have hfound := hperm.mem_iff.1 hpom
    obtain ⟨c, hcontaining⟩ := exists_containing? hproper (hproper.poms_below pom hfound)
    refine ⟨c, hcontaining, fun c' hc' => ?_⟩
    rw [ofSights, mem_projectsOf_iff hproper hc', hcontaining, Option.some.injEq, eq_comm]
    exact and_iff_right hfound
  case containing => exact fun dir c => containing?_eq_some_iff hproper
  case sorted => exact fun c hc => pairwise_projectsOf hproper hc
  case withProjects => exact hlawful.increasing.sublist (withProjects_sublist _)
  case withoutProjects => exact hlawful.increasing.sublist (withoutProjects_sublist _)
  case apart => exact disjoint_withProjects hlawful
  case cover => exact fun c => mem_checkouts_iff hlawful
  case projectIn =>
    intro dir pom
    rw [ofSights, projectIn?_eq_some_iff hproper, mem_pomsOf]

/-- The workspace does not depend on the order of the sights. -/
theorem ofSights_eq (hroot : root.components ≠ []) {sights' : List Walk.Sight}
    (h' : Walk.Delivers root (.directory es) sights') :
    ofSights files root sights = ofSights files root sights' := by
  have hperm := h.perm h'
  exact ofFinds_perm (proper_ofSights files hes h hroot) ((hperm.filterMap _).filter _)
    (((hperm.filterMap _).filter _).filterMap _)

end

section

variable {files : Files} (hfiles : files.top.wellNamed = true) {root : Path}
  {es : List (String × Node)} (hroot : files.node root = .ok (.directory es))

include hfiles hroot

/-- A scan of a directory answers the workspace of what a walk comes across, in whatever order that
is. -/
theorem scan_eq_ofSights {sights : List Walk.Sight}
    (hsights : Walk.Delivers root (.directory es) sights) :
    ∃ s, scan files root = .ok s ∧ s.workspace = ofSights files root sights := by
  obtain ⟨found, hfound, hdelivers⟩ := Walk.exists_delivers hfiles hroot
  have hsame : ofSights files root found = ofSights files root sights :=
    ofSights_eq (Files.wellNamed_of_node hfiles hroot) hdelivers (Files.components_of_node hroot)
      hsights
  rw [scan, hfound, ← hsame]
  refine ⟨_, rfl, ?_⟩
  rw [ofSights, pomsOf]
  refine congrArg (ofFinds root _) ?_
  rw [List.filterMap_map]
  refine List.filterMap_congr fun p _ => ?_
  rw [Function.comp_apply]
  cases Pom.ofFile files p <;> rfl

/-- A scan of a directory answers an index of what a walk comes across, the same in whatever order
that is. -/
theorem scan_indexes {sights : List Walk.Sight}
    (hsights : Walk.Delivers root (.directory es) sights) :
    ∃ s, scan files root = .ok s ∧ s.workspace = ofSights files root sights ∧
      s.workspace.Indexes files root sights := by
  obtain ⟨s, hscan, hworkspace⟩ := scan_eq_ofSights hfiles hroot hsights
  have hindexes : (ofSights files root sights).Indexes files root sights :=
    indexes_ofSights (Files.wellNamed_of_node hfiles hroot) hsights (Files.components_of_node hroot)
  exact ⟨s, hscan, hworkspace, hworkspace ▸ hindexes⟩

end

/-- The text of a project file. -/
def kivakitText : String :=
  "<groupId>org.kivakit</groupId><artifactId>kivakit</artifactId><version>1.0.0</version>"

/-- A checkout with an independent clone, a submodule that holds a project, and build output. -/
def cloneBesideSubmodule : Files :=
  ⟨.directory [("ws", .directory
    [(".git", .emptyDirectory),
      ("clone", .directory [(".git", .emptyDirectory)]),
      ("lib", .directory
        [(".git", .ofText "gitdir: ../.git/modules/lib"), ("pom.xml", .ofText kivakitText)]),
      ("target", .directory [("pom.xml", .ofText kivakitText)])])], []⟩

theorem scan_indexes_beside_clone :
    ∃ s, scan cloneBesideSubmodule ⟨["ws"]⟩ = .ok s ∧
      s.workspace = ofSights cloneBesideSubmodule ⟨["ws"]⟩
        [.file ⟨["ws", "lib", "pom.xml"]⟩, .directory ⟨["ws", "lib"]⟩,
          .directory ⟨["ws", "clone"]⟩, .directory ⟨["ws"]⟩] ∧
      s.workspace.Indexes cloneBesideSubmodule ⟨["ws"]⟩
        [.file ⟨["ws", "lib", "pom.xml"]⟩, .directory ⟨["ws", "lib"]⟩,
          .directory ⟨["ws", "clone"]⟩, .directory ⟨["ws"]⟩] := by
  have hfiles : cloneBesideSubmodule.top.wellNamed = true := by decide +kernel
  have hplace : cloneBesideSubmodule.place ⟨["ws"]⟩ = .ok ⟨["ws"], true⟩ := by
    have hsize : Text.nameSize "ws" = 2 := by decide +kernel
    have hzero : Text.hasZero "ws" = false := by decide +kernel
    simp [Files.place, Files.follow, cloneBesideSubmodule, Node.get?, Path.isAbsolute,
      Path.components, Path.leading?, Component.ofPiece?, Path.isNoise, Files.maxLinks,
      Files.maxNameBytes, hsize, hzero]
  have hroot := Files.node_eq_ok_iff.2 ⟨_, hplace, rfl⟩
  obtain ⟨found, hfound, hdelivers⟩ := Walk.exists_delivers hfiles hroot
  refine scan_indexes hfiles hroot (hdelivers.of_perm ?_)
  rw [Walk.sights, hplace] at hfound
  rw [← Except.ok.inj hfound]
  decide +kernel

end Grove.Workspace
