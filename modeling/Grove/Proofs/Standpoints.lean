import Grove.Project.Scope
import Grove.Proofs.Action
import Grove.Proofs.Discovery
import Grove.Proofs.Encoding

/-!
# The project a run starts from

A run starts from the project in a directory. The workspace is scanned from the outermost checkout
around the directory, and the checkout of the project is looked up in it. The project is found only
if its directory was walked, so the checkout looked up is the one that climbing from the directory
finds.

## What is proved

* `load_apply`, `exists_scan_of_load` — when loading succeeds and with what.
* `load_agrees` — the checkout and the workspace loaded are those that discovery finds from below.
-/

namespace Grove

variable {σ : Type}

/-- Reporting a scan answers its workspace. -/
theorem Workspace.Scan.exists_report_apply (scan : Workspace.Scan) (s : Session σ) :
    ∃ t, scan.report s = .ok scan.workspace t := by
  have hnotes : ∀ (xs : List Nat) (s : Session σ), ∃ t,
      xs.forM (fun _ => Action.note .warn "skipping unreadable pom") s = .ok () t := by
    intro xs
    induction xs with
    | nil => exact fun s => ⟨s, rfl⟩
    | cons x xs ih =>
      intro s
      obtain ⟨t, ht⟩ := ih { s with log := s.log ++ [⟨.warn, "skipping unreadable pom"⟩] }
      exact ⟨t, ht⟩
  rw [Workspace.Scan.report]
  split
  · obtain ⟨t, ht⟩ := hnotes (List.range scan.unreadable)
      { s with log := s.log ++ [⟨.warn, "unreadable entries skipped"⟩] }
    refine ⟨t, ?_⟩
    rw [bind_of_ok (Action.note_apply _ _ _)]
    exact bind_of_ok ht
  · obtain ⟨t, ht⟩ := hnotes (List.range scan.unreadable) s
    exact ⟨t, bind_of_ok ht⟩

namespace Standpoint

/-- The project file of the submodule can be read. -/
theorem exists_ofFile_lib :
    ∃ pom, Pom.ofFile Workspace.cloneBesideSubmodule
      (Files.pathOf ["ws", "lib", "pom.xml"]) = .ok pom := by
  have hlib : Workspace.cloneBesideSubmodule.top.get? ["ws", "lib"] = some (.directory _) := rfl
  have hnode : Workspace.cloneBesideSubmodule.node (Files.pathOf (["ws", "lib"] ++ ["pom.xml"])) =
      .ok (.ofText Workspace.kivakitText) := by
    rw [Files.node_entry hlib (by decide) (by simp [List.lookup_cons, Node.ofText])]
    rfl
  have htext : Workspace.cloneBesideSubmodule.readText (Files.pathOf ["ws", "lib", "pom.xml"]) =
      .ok Workspace.kivakitText := by
    have hvalid : String.fromUTF8? Workspace.kivakitText.toByteArray =
        some Workspace.kivakitText := Text.fromUTF8?_toUTF8 _
    simp only [List.cons_append, List.nil_append] at hnode
    simp [Files.readText, Files.read, hnode, Node.ofText, bind, Except.bind, hvalid]
  have hparse : (Pom.parse (Files.pathOf ["ws", "lib", "pom.xml"])
      Workspace.kivakitText).isOk = true := by
    decide +kernel
  simp only [Pom.ofFile, htext]
  cases hpom : Pom.parse (Files.pathOf ["ws", "lib", "pom.xml"]) Workspace.kivakitText with
  | ok pom => exact ⟨pom, rfl⟩
  | error e => simp [hpom, Except.isOk, Except.toBool] at hparse

section

variable {files : Files} {projectDir dir : Path} {options : ScopeOptions}

/-- Loading succeeds where the workspace can be scanned and has a project in the directory. -/
theorem load_apply {scan : Workspace.Scan} {project : Pom}
    (hscan : Workspace.scanAround files projectDir = .ok scan)
    (hdir : files.canonical projectDir = .ok dir)
    (hproject : scan.workspace.projectIn? dir = some project) (s : Session σ) :
    ∃ family t, load files projectDir options s =
      .ok ⟨scan.workspace, project,
        (scan.workspace.containing? dir).getD scan.workspace.root, family⟩ t := by
  obtain ⟨t, hreport⟩ := scan.exists_report_apply s
  rw [load, hscan, bind_of_ok (Action.ofExcept_ok _ _), bind_of_ok hreport, hdir, Except.mapError,
    bind_of_ok (Action.ofExcept_ok _ _)]
  simp only [hproject]
  cases namedFamily? options with
  | none => exact ⟨_, _, rfl⟩
  | some family =>
    by_cases happlies : options.scope.appliesFamily = true
    · simp only [happlies, Bool.not_true, Bool.false_eq_true, if_false]
      exact ⟨_, _, rfl⟩
    · simp only [happlies, Bool.not_false, if_true]
      exact ⟨_, _, rfl⟩

/-- Loading fails where the workspace cannot be scanned or has no project in the directory. -/
theorem exists_scan_of_load {s t : Session σ} {p : Standpoint}
    (h : load files projectDir options s = .ok p t) :
    ∃ scan dir, Workspace.scanAround files projectDir = .ok scan ∧
      files.canonical projectDir = .ok dir ∧
      scan.workspace.projectIn? dir = some p.project ∧ p.workspace = scan.workspace ∧
      p.checkout = (scan.workspace.containing? dir).getD scan.workspace.root := by
  cases hscan : Workspace.scanAround files projectDir with
  | error e =>
    rw [load, hscan, bind_of_error (Action.ofExcept_error _ _)] at h
    cases h
  | ok scan =>
    obtain ⟨u, hreport⟩ := scan.exists_report_apply s
    have hrest := h
    rw [load, hscan, bind_of_ok (Action.ofExcept_ok _ _), bind_of_ok hreport] at hrest
    cases hdir : files.canonical projectDir with
    | error e =>
      rw [hdir] at hrest
      cases hrest
    | ok dir =>
      cases hproject : scan.workspace.projectIn? dir with
      | none =>
        rw [hdir, Except.mapError, bind_of_ok (Action.ofExcept_ok _ _), hproject] at hrest
        cases hrest
      | some project =>
        obtain ⟨family, u', hload⟩ := load_apply hscan hdir hproject s
        obtain ⟨rfl, -⟩ := EStateM.Result.ok.inj (h.symm.trans hload)
        exact ⟨scan, dir, rfl, rfl, hproject, rfl, rfl⟩

/-- What is loaded is what discovery finds from below: the checkout is the nearest one around the
directory of the project, and it belongs to the workspace of the outermost one. -/
theorem load_agrees (hfiles : files.top.wellNamed = true) {s t : Session σ} {p : Standpoint}
    (h : load files projectDir options s = .ok p t) :
    ∃ dir, files.canonical projectDir = .ok dir ∧
      Git.checkoutRoot? files dir = some p.checkout.root ∧
      Git.outermostRoot? files dir = some p.workspace.root.root ∧
      p.workspace.root.root.Encloses p.checkout.root ∧
      p.checkout ∈ p.workspace.checkouts ∧
      ∀ options', options'.scope = .justThis → p.resolve options' = [p.checkout] := by
  obtain ⟨scan, dir, hscan, hdir, hproject, hworkspace, hcheckout⟩ := exists_scan_of_load h
  obtain ⟨dir', root, hdir', houtermost⟩ := Workspace.exists_outermostRoot?_of_scanAround hscan
  obtain rfl := Except.ok.inj (hdir.symm.trans hdir')
  obtain ⟨loc, top, es, sights, scan', hsurvey, rfl, hloc, rfl, hscan', hsights⟩ :=
    Workspace.exists_survey hfiles hdir houtermost
  obtain rfl := Except.ok.inj (hscan.symm.trans hscan')
  rw [hsights] at hworkspace hcheckout hproject
  obtain ⟨c, hcontaining, hfind⟩ :=
    hsurvey.checkoutRoot?_eq (hsurvey.mem_of_projectIn? hloc hproject)
  obtain ⟨hc, -, -⟩ := (hsurvey.indexes.containing _ _).1 hcontaining
  rw [hcontaining, Option.getD_some] at hcheckout
  rw [hworkspace, hcheckout]
  refine ⟨_, hdir, hfind, houtermost, hsurvey.encloses hc, hc, fun options' hscope => ?_⟩
  rw [resolve, hscope, Scope.select, hcheckout]

end

theorem load_agrees_beside_clone :
    ∃ p t, load Workspace.cloneBesideSubmodule (Files.pathOf ["ws", "lib"])
        ⟨.justThis, false, none, false⟩ (.start ()) = .ok p t ∧
      ∃ dir, Workspace.cloneBesideSubmodule.canonical (Files.pathOf ["ws", "lib"]) = .ok dir ∧
        Git.checkoutRoot? Workspace.cloneBesideSubmodule dir = some p.checkout.root ∧
        Git.outermostRoot? Workspace.cloneBesideSubmodule dir = some p.workspace.root.root ∧
        p.workspace.root.root.Encloses p.checkout.root ∧
        p.checkout ∈ p.workspace.checkouts ∧
        ∀ options', options'.scope = .justThis → p.resolve options' = [p.checkout] := by
  obtain ⟨es, sights, scan, h, hget, hscan, hworkspace⟩ := Workspace.exists_survey_lib
  obtain rfl := Node.directory.inj (Option.some.inj hget)
  have hfile : .file (Files.pathOf ["ws", "lib", "pom.xml"]) ∈ sights := by
    refine (h.delivers.each _).2 ⟨["lib", "pom.xml"], .file _ _, rfl, ?_⟩
    rw [Files.descend_pathOf (by decide)]
    rfl
  obtain ⟨pom, hread⟩ := exists_ofFile_lib
  have hproject : scan.workspace.projectIn? (Files.pathOf ["ws", "lib"]) = some pom := by
    rw [hworkspace]
    refine (h.indexes.projectIn _ _).2 ⟨⟨_, hfile, by decide, hread⟩, ?_⟩
    rw [Pom.directory, Workspace.path_of_ofFile hread]
    decide
  obtain ⟨family, t, hload⟩ := load_apply hscan Workspace.canonical_lib hproject (.start ())
  exact ⟨_, t, hload, load_agrees h.wellNamed hload⟩

end Standpoint

end Grove
