import Grove.Commands.Context
import Grove.Proofs.Memory
import Grove.Proofs.Scans
import Grove.Proofs.Standpoints

/-!
# What is selected lies in the workspace

Scopes and lists of families select checkouts of a workspace. What they select is among its
checkouts, the outermost one that may be added included, so no two of it have like roots.

## What is proved

* `mem_checkouts_of_mem_select`, `mem_checkouts_of_mem_inFamilies` — scopes and families select
  checkouts of the workspace.
* `mem_checkouts_of_mem_resolve` — so does the project that a run starts from.
* `Workspace.Scan.keeps_report`, `keeps_load` — reporting a scan and loading that project change nothing
  but the log.
-/

namespace Grove

namespace Workspace

variable {w : Workspace}

theorem checkoutsWhere_sublist (w : Workspace) (p : Pom → Bool) :
    (w.checkoutsWhere p).Sublist w.checkouts :=
  List.filter_sublist.map _

theorem mem_checkouts_of_mem_checkoutsWhere {p : Pom → Bool} {c : Checkout}
    (h : c ∈ w.checkoutsWhere p) : c ∈ w.checkouts :=
  (w.checkoutsWhere_sublist p).subset h

theorem increasing_checkoutsWhere (hw : w.Lawful) (p : Pom → Bool) :
    Ordered.Increasing Checkout.order (w.checkoutsWhere p) :=
  hw.increasing.sublist (w.checkoutsWhere_sublist p)

theorem mem_of_mem_appendRoot {cs : List Checkout} {c : Checkout} (h : c ∈ w.appendRoot cs) :
    c ∈ cs ∨ c = w.root := by
  rw [appendRoot] at h
  split at h
  · exact .inl h
  · simpa using h

/-- Adding the outermost checkout keeps to the workspace. -/
theorem mem_checkouts_of_mem_appendRoot (hw : w.Lawful) {cs : List Checkout}
    (hcs : ∀ c ∈ cs, c ∈ w.checkouts) {c : Checkout} (h : c ∈ w.appendRoot cs) :
    c ∈ w.checkouts := by
  rcases mem_of_mem_appendRoot h with h | rfl
  · exact hcs c h
  · exact hw.root

/-- Adding checkouts that are not there yet adds nothing else. -/
theorem mem_of_mem_foldl_unless_isIn {cs found : List Checkout} {c : Checkout}
    (h : c ∈ cs.foldl (fun found c => if c.isIn found then found else found ++ [c]) found) :
    c ∈ cs ∨ c ∈ found := by
  induction cs generalizing found with
  | nil => exact .inr h
  | cons c' cs ih =>
    rcases ih h with h | h
    · exact .inl (List.mem_cons_of_mem _ h)
    · simp only [] at h
      split at h
      · exact .inr h
      · rcases List.mem_append.1 h with h | h
        · exact .inr h
        · exact .inl (List.mem_singleton.1 h ▸ List.mem_cons_self)

theorem mem_checkouts_of_mem_inFamilies {families : List Family} {c : Checkout}
    (h : c ∈ w.inFamilies families) : c ∈ w.checkouts := by
  have key : ∀ (families : List Family) (found : List Checkout), (∀ c ∈ found, c ∈ w.checkouts) →
      ∀ c ∈ families.foldl (fun found family => (w.inFamily family).foldl
        (fun found c => if c.isIn found then found else found ++ [c]) found) found,
        c ∈ w.checkouts := by
    intro families
    induction families with
    | nil => exact fun _ hfound => hfound
    | cons family families ih =>
      refine fun found hfound => ih _ fun c hc => ?_
      rcases mem_of_mem_foldl_unless_isIn hc with hc | hc
      · exact mem_checkouts_of_mem_checkoutsWhere hc
      · exact hfound c hc
  exact key families [] (by simp) c h

/-- Every scope but the narrowest selects checkouts of the workspace. -/
theorem mem_checkouts_of_mem_wide (hw : w.Lawful) {asking : Checkout} {scope : Scope}
    (hscope : scope ≠ .justThis) {includeRoot : Bool} {own : Family} {group : String} {c : Checkout}
    (h : c ∈ scope.select w asking includeRoot own group) : c ∈ w.checkouts := by
  have hroot : ∀ cs : List Checkout, cs.Sublist w.checkouts →
      c ∈ (if includeRoot then w.appendRoot cs else cs) → c ∈ w.checkouts := by
    intro cs hcs hc
    split at hc
    · exact mem_checkouts_of_mem_appendRoot hw (fun _ hc => hcs.subset hc) hc
    · exact hcs.subset hc
  cases scope with
  | justThis => exact absurd rfl hscope
  | sameGroupId => exact hroot _ (w.checkoutsWhere_sublist _) h
  | family => exact hroot _ (w.checkoutsWhere_sublist _) h
  | familyOrChildFamily => exact hroot _ (w.checkoutsWhere_sublist _) h
  | all => exact hroot _ w.withProjects_sublist h

/-- Whatever the scope, a checkout of the workspace selects checkouts of the workspace. -/
theorem mem_checkouts_of_mem_select (hw : w.Lawful) {asking : Checkout}
    (hasking : asking ∈ w.checkouts) {scope : Scope} {includeRoot : Bool} {own : Family}
    {group : String} {c : Checkout} (h : c ∈ scope.select w asking includeRoot own group) :
    c ∈ w.checkouts := by
  by_cases hscope : scope = .justThis
  · rw [hscope] at h
    exact List.mem_singleton.1 h ▸ hasking
  · exact mem_checkouts_of_mem_wide hw hscope h

theorem lawful_of_scanAround {files : Files} {projectDir : Path} {scan : Scan}
    (h : scanAround files projectDir = .ok scan) : scan.workspace.Lawful := by
  have hscan : ∃ root, Workspace.scan files root = .ok scan := by
    rw [scanAround] at h
    cases hdir : files.canonical projectDir with
    | error e => simp [hdir, Except.mapError, bind, Except.bind] at h
    | ok dir =>
      simp only [hdir, Except.mapError, bind, Except.bind] at h
      split at h
      · cases h
      · exact ⟨_, h⟩
  obtain ⟨root, hscan⟩ := hscan
  rw [Workspace.scan] at hscan
  cases hsights : Walk.sights files WalkOptions.workspace root with
  | error e => simp [hsights, Except.mapError, bind, Except.bind] at hscan
  | ok sights =>
    simp only [hsights, Except.mapError, bind, Except.bind] at hscan
    obtain rfl := Except.ok.inj hscan
    exact lawful_ofFinds _ _ _

end Workspace

namespace Action.Keeps

variable {σ α : Type} {P : Session σ → Prop}

theorem ofExcept (r : Except Failure α) : Keeps P (Action.ofExcept r) := by
  cases r with
  | ok a => exact .pure a
  | error e => exact .throw e

/-- What each step of a loop keeps the loop keeps. -/
theorem forM {f : α → Action σ Unit} {xs : List α} (hf : ∀ a ∈ xs, Keeps P (f a)) :
    Keeps P (xs.forM f) := by
  induction xs with
  | nil => exact .pure ()
  | cons x xs ih =>
    exact (hf x List.mem_cons_self).bind fun _ => ih fun a ha => hf a (List.mem_cons_of_mem _ ha)

theorem note (hlog : ∀ s log, P s → P { s with log }) (severity : Severity) (message : String) :
    Keeps P (Action.note severity message) :=
  fun s hs => hlog s _ hs

end Action.Keeps

/-- Reporting a scan keeps all that does not depend on the log. -/
theorem Workspace.Scan.keeps_report {σ : Type} {P : Session σ → Prop}
    (hlog : ∀ s log, P s → P { s with log }) (scan : Scan) : Action.Keeps P scan.report := by
  have hrest : Action.Keeps P (do
      (List.range scan.unreadable).forM fun _ => Action.note .warn "skipping unreadable pom"
      return scan.workspace) :=
    (Action.Keeps.forM fun _ _ => .note hlog _ _).bind fun _ => .pure _
  rw [report]
  split
  · exact (Action.Keeps.note hlog _ _).bind fun _ => hrest
  · exact hrest

/-- A loop whose steps succeed succeeds. -/
theorem Action.exists_forM_apply {σ α : Type} {f : α → Action σ Unit} {xs : List α}
    (hf : ∀ a ∈ xs, ∀ s, ∃ t, f a s = .ok () t) (s : Session σ) : ∃ t, xs.forM f s = .ok () t := by
  induction xs generalizing s with
  | nil => exact ⟨s, rfl⟩
  | cons x xs ih =>
    obtain ⟨t, hx⟩ := hf x List.mem_cons_self s
    obtain ⟨u, hxs⟩ := ih (fun a ha => hf a (List.mem_cons_of_mem _ ha)) t
    exact ⟨u, (bind_of_ok hx).trans hxs⟩

namespace Standpoint

variable {σ : Type} {files : Files} {projectDir : Path} {options : ScopeOptions} {p : Standpoint}
  {s t : Session σ}

/-- Loading keeps all that does not depend on the log. -/
theorem keeps_load {P : Session σ → Prop} (hlog : ∀ s log, P s → P { s with log })
    (files : Files) (projectDir : Path) (options : ScopeOptions) :
    Action.Keeps P (load files projectDir options) := by
  rw [load]
  refine (Action.Keeps.ofExcept _).bind fun scan => (scan.keeps_report hlog).bind fun workspace =>
    (Action.Keeps.ofExcept _).bind fun dir => ?_
  split
  · exact .throw _
  · split
    · exact .pure _
    · split
      · exact (Action.Keeps.note hlog _ _).bind fun _ => .pure _
      · exact .pure _

/-- What is loaded is a workspace and one of its checkouts. -/
theorem lawful_of_load (h : load files projectDir options s = .ok p t) :
    p.workspace.Lawful ∧ p.checkout ∈ p.workspace.checkouts := by
  obtain ⟨scan, dir, hscan, -, -, hworkspace, hcheckout⟩ := exists_scan_of_load h
  have hlawful := Workspace.lawful_of_scanAround hscan
  rw [hworkspace, hcheckout]
  refine ⟨hlawful, ?_⟩
  cases hcontaining : scan.workspace.containing? dir with
  | none => exact hlawful.root
  | some c =>
    obtain ⟨up, -, hfind⟩ := List.exists_of_findSome?_eq_some hcontaining
    exact List.mem_of_find?_eq_some hfind

theorem mem_checkouts_of_mem_resolve (h : load files projectDir options s = .ok p t)
    {options' : ScopeOptions} {c : Checkout} (hc : c ∈ p.resolve options') :
    c ∈ p.workspace.checkouts :=
  Workspace.mem_checkouts_of_mem_select (lawful_of_load h).1 (lawful_of_load h).2 hc

/-- The project of the submodule is loaded with the checkout of the submodule. -/
theorem exists_load_lib (options : ScopeOptions) (s : Session σ) :
    ∃ p t, load Workspace.cloneBesideSubmodule (Files.pathOf ["ws", "lib"]) options s = .ok p t ∧
      p.checkout = .nested (Files.pathOf ["ws", "lib"]) (Files.pathOf ["ws"]) := by
  obtain ⟨es, sights, scan, h, hget, hscan, hworkspace⟩ := Workspace.exists_survey_lib
  obtain rfl := Node.directory.inj (Option.some.inj hget)
  have hfile : .file (Files.pathOf ["ws", "lib", "pom.xml"]) ∈ sights := by
    refine (h.delivers.each _).2 ⟨["lib", "pom.xml"], .file _ _, rfl, ?_⟩
    rw [Files.descend_pathOf (by decide)]
    rfl
  have hdirectory : .directory (Files.pathOf ["ws", "lib"]) ∈ sights := by
    refine (h.delivers.each _).2 ⟨["lib"], .directory _, rfl, ?_⟩
    rw [Files.descend_pathOf (by decide)]
    rfl
  obtain ⟨pom, hread⟩ := exists_ofFile_lib
  have hproject : scan.workspace.projectIn? (Files.pathOf ["ws", "lib"]) = some pom := by
    rw [hworkspace]
    refine (h.indexes.projectIn _ _).2 ⟨⟨_, hfile, by decide, hread⟩, ?_⟩
    rw [Pom.directory, Workspace.path_of_ofFile hread]
    decide
  obtain ⟨c, hcontaining, hfind⟩ := h.checkoutRoot?_eq hdirectory
  rw [Git.checkoutRoot?_of_isCheckoutRoot (Workspace.isCheckoutRoot_of_mem (by simp)),
    Option.some.injEq] at hfind
  obtain ⟨hc, -, -⟩ := (h.indexes.containing _ _).1 hcontaining
  have hmade : c = .nested (Files.pathOf ["ws", "lib"]) (Files.pathOf ["ws"]) := by
    rw [h.indexes.made c hc, ← hfind]
    decide
  obtain ⟨family, t, hload⟩ := load_apply hscan Workspace.canonical_lib hproject s
  refine ⟨_, t, hload, ?_⟩
  show (scan.workspace.containing? _).getD _ = _
  rw [hworkspace, hcontaining, Option.getD_some, hmade]

end Standpoint

/-- Finding where a command starts from changes no file and forgets nothing. -/
theorem CommandContext.reached_standpoint {σ : Type} [HasFiles σ] (x : CommandContext σ)
    (s : Session σ) :
    (reached (x.standpoint s)).host = s.host ∧
      (reached (x.standpoint s)).dirtyFlags = s.dirtyFlags :=
  Standpoint.keeps_load (P := fun t => t.host = s.host ∧ t.dirtyFlags = s.dirtyFlags)
    (fun _ _ h => h) _ _ _ s ⟨rfl, rfl⟩

end Grove
