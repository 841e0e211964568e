import Grove.Proofs.Canonical
import Grove.Proofs.Scans

/-!
# Discovery from below and from above

The checkout root of a directory is found by climbing from the directory; a scan walks down from the
outermost checkout. Both find the same checkout for every directory that is walked. The climb goes
on from checkout to checkout as long as the inner one is a submodule; the scan takes in every
checkout it comes across, so the climb from a checkout of a workspace may end before its root.

## What is proved

* `Survey.checkoutRoot?_eq` — climbing from a directory that was walked leads to the checkout that
  the workspace answers for it.
* `Survey.exists_home` — where the climb from a checkout of the workspace ends.
* `scanAround_homes` — of a scanned workspace: all its checkouts count as parts of the outermost
  one, and which of them lead to it by climbing.
-/

namespace Grove

/-- The outermost checkout of the workspace that a checkout was found in. -/
def Checkout.home (c : Checkout) : Checkout :=
  match c.home? with
  | none => c
  | some root => .outermost root

namespace Git

theorem checkoutRoot?_of_isCheckoutRoot {files : Files} {dir : Path}
    (h : isCheckoutRoot files dir = true) : checkoutRoot? files dir = some dir := by
  rw [checkoutRoot?, Path.ancestors, List.find?_cons_of_pos h]

theorem outermostRoot?_of_isCheckoutRoot {files : Files} {dir : Path}
    (h : isCheckoutRoot files dir = true) :
    outermostRoot? files dir = some (climb files dir) := by
  rw [outermostRoot?, checkoutRoot?_of_isCheckoutRoot h, Option.map_some]

/-- The checkout that a climb goes on to: the nearest one around, if the checkout belongs to it. -/
def above? (files : Files) (checkout : Path) : Option Path :=
  checkout.parent?.bind fun parent =>
    (checkoutRoot? files parent).filter (isSubmoduleOf files checkout)

theorem above?_pathOf {files : Files} {loc : Location} {name : String}
    (h : ∀ n ∈ loc ++ [name], Path.isName n = true) :
    above? files (Files.pathOf (loc ++ [name])) =
      (checkoutRoot? files (Files.pathOf loc)).filter
        (isSubmoduleOf files (Files.pathOf (loc ++ [name]))) := by
  rw [above?, Files.parent?_pathOf h, Option.bind_some]

/-- A climb takes one step at a time. -/
theorem climb_eq (files : Files) (checkout : Path) :
    climb files checkout = ((above? files checkout).map (climb files)).getD checkout := by
  rw [climb, above?]
  split
  · next hparent => simp [hparent]
  · next parent hparent =>
    split
    · next hnone => simp [hparent, hnone]
    · next enclosing henclosing =>
      by_cases hsub : isSubmoduleOf files checkout enclosing = true
      · simp [hparent, henclosing, Option.filter, hsub]
      · simp [hparent, henclosing, Option.filter, hsub]

theorem above?_climb (files : Files) (checkout : Path) :
    above? files (climb files checkout) = none := by
  fun_induction climb files checkout with
  | case1 checkout hparent => simp [above?, hparent]
  | case2 checkout parent hparent hnone => simp [above?, hparent, hnone]
  | case3 checkout parent hparent enclosing henclosing hsub ih => exact ih
  | case4 checkout parent hparent enclosing henclosing hsub =>
    simp [above?, hparent, henclosing, hsub]

/-- Where a climb ends no further climb starts. -/
theorem climb_climb (files : Files) (checkout : Path) :
    climb files (climb files checkout) = climb files checkout := by
  rw [climb_eq files (climb files checkout), above?_climb]
  rfl

/-- A climb from a checkout root ends at one that encloses it. -/
theorem climb_spec {files : Files} {checkout : Path} (h : isCheckoutRoot files checkout = true) :
    isCheckoutRoot files (climb files checkout) = true ∧
      climb files checkout ∈ checkout.ancestors := by
  fun_induction climb files checkout with
  | case3 checkout parent hparent enclosing henclosing hsub ih =>
    obtain ⟨hroot, hmem⟩ := ih (by simpa using List.find?_some henclosing)
    have hup : enclosing ∈ checkout.ancestors :=
      Path.ancestors_trans (Path.mem_ancestors_of_parent? hparent)
        (List.mem_of_find?_eq_some henclosing)
    exact ⟨hroot, Path.ancestors_trans hup hmem⟩
  | _ => exact ⟨h, Path.self_mem_ancestors _⟩

end Git

namespace Workspace

/-- A checkout root that discovery climbs no further from, and the sights of a walk from there. -/
structure Survey (files : Files) (root : Location) (es : List (String × Node))
    (sights : List Walk.Sight) : Prop where
  wellNamed : files.top.wellNamed = true
  node : files.node (Files.pathOf root) = .ok (.directory es)
  names : ∀ n ∈ root, Path.isName n = true
  isCheckout : Git.isCheckoutRoot files (Files.pathOf root) = true
  highest : Git.climb files (Files.pathOf root) = Files.pathOf root
  delivers : Walk.Delivers (Files.pathOf root) (.directory es) sights

/-- The workspace of the checkouts and projects that were walked. -/
abbrev Survey.workspace {files : Files} {root : Location} {es : List (String × Node)}
    {sights : List Walk.Sight} (_ : Survey files root es sights) : Workspace :=
  ofSights files (Files.pathOf root) sights

section

variable {files : Files} (hfiles : files.top.wellNamed = true) {projectDir dir : Path}

include hfiles

/-- A scan around a directory in a checkout is one of the outermost checkout that encloses it. -/
theorem exists_survey (hcanonical : files.canonical projectDir = .ok dir) {root : Path}
    (houtermost : Git.outermostRoot? files dir = some root) :
    ∃ loc top es sights s, ∃ h : Survey files top es sights, dir = Files.pathOf loc ∧
      (∀ n ∈ loc, Path.isName n = true) ∧ root = Files.pathOf top ∧
      scanAround files projectDir = .ok s ∧ s.workspace = h.workspace := by
  obtain ⟨loc, rfl, hthere⟩ := Files.exists_pathOf_of_canonical hcanonical
  obtain ⟨n, hn⟩ := Option.isSome_iff_exists.1 hthere
  have hnames := (Node.wellNamed_of_get? hfiles hn).2
  obtain ⟨checkout, hcheckout, hclimb⟩ := Option.map_eq_some_iff.1 houtermost
  have hisCheckout : Git.isCheckoutRoot files checkout = true := by
    simpa using List.find?_some hcheckout
  obtain ⟨hroot, hup⟩ := Git.climb_spec hisCheckout
  rw [hclimb] at hroot hup
  obtain ⟨top, htop, rfl⟩ := (Files.mem_ancestors_pathOf hnames).1
    (Path.ancestors_trans (List.mem_of_find?_eq_some hcheckout) hup)
  have htopNames : ∀ n ∈ top, Path.isName n = true := fun n hn => hnames n (htop.subset hn)
  obtain ⟨es, hnode⟩ := Files.exists_node_of_isCheckoutRoot htopNames hroot
  obtain ⟨found, -, hdelivers⟩ := Walk.exists_delivers hfiles hnode
  obtain ⟨s, hscan, hworkspace⟩ := scan_eq_ofSights hfiles hnode hdelivers
  have hhighest : Git.climb files (Files.pathOf top) = Files.pathOf top := by
    rw [← hclimb, Git.climb_climb]
  refine ⟨loc, top, es, found, s, ⟨hfiles, hnode, htopNames, hroot, hhighest, hdelivers⟩, rfl,
    hnames, rfl, ?_, hworkspace⟩
  simp only [scanAround, hcanonical, Except.mapError, bind, Except.bind, houtermost, hscan]

end

/-- A scan around a directory needs it to be there and to lie in a checkout. -/
theorem exists_outermostRoot?_of_scanAround {files : Files} {projectDir : Path} {s : Scan}
    (h : scanAround files projectDir = .ok s) :
    ∃ dir root, files.canonical projectDir = .ok dir ∧
      Git.outermostRoot? files dir = some root := by
  rw [scanAround] at h
  cases hcanonical : files.canonical projectDir with
  | error e => simp [hcanonical, Except.mapError, bind, Except.bind] at h
  | ok dir =>
    simp only [hcanonical, Except.mapError, bind, Except.bind] at h
    cases houtermost : Git.outermostRoot? files dir with
    | none => simp [houtermost] at h
    | some root => exact ⟨dir, root, rfl, houtermost⟩

/-- The next checkout of the workspace around one. -/
def around? (w : Workspace) (c : Checkout) : Option Checkout :=
  c.root.parent?.bind w.containing?

/-- The checkout is a submodule of the next one around it. -/
def Belongs (w : Workspace) (files : Files) (c : Checkout) : Prop :=
  ∃ e, w.around? c = some e ∧ Git.isSubmoduleOf files c.root e.root = true

section

variable {files : Files} {root : Location} {es : List (String × Node)} {sights : List Walk.Sight}
  (h : Survey files root es sights)

include h

theorem Survey.wellNamed_entries : (Node.directory es).wellNamed = true :=
  Files.wellNamed_of_node h.wellNamed h.node

theorem Survey.indexes : h.workspace.Indexes files (Files.pathOf root) sights :=
  indexes_ofSights h.wellNamed_entries h.delivers (by simp [Files.components_pathOf h.names])

/-- What is walked lies below the root, and so do the directories on the way. -/
theorem Survey.exists_location {dir : Path} (hdir : .directory dir ∈ sights) :
    ∃ rest, (∀ n ∈ root ++ rest, Path.isName n = true) ∧ dir = Files.pathOf (root ++ rest) ∧
      ∀ rest', rest' <+: rest → .directory (Files.pathOf (root ++ rest')) ∈ sights := by
  obtain ⟨rest, hrest, hdescend, hway⟩ :=
    exists_descend_of_directory h.wellNamed_entries h.delivers hdir
  have hnames : ∀ n ∈ root ++ rest, Path.isName n = true :=
    List.forall_mem_append.2 ⟨h.names, hrest⟩
  refine ⟨rest, hnames, hdescend.trans (Files.descend_pathOf hnames), fun rest' hrest' => ?_⟩
  rw [← Files.descend_pathOf fun n hn => hnames n ?_]
  · exact hway rest' hrest'
  · exact ((List.prefix_append_right_inj root).2 hrest').subset hn

/-- The checkouts of the workspace are the checkout roots that were walked. -/
theorem Survey.exists_checkout_iff {dir : Path} :
    (∃ c ∈ h.workspace.checkouts, c.root = dir) ↔
      .directory dir ∈ sights ∧ Git.isCheckoutRoot files dir = true := by
  rw [h.indexes.roots]
  refine ⟨?_, .inr⟩
  rintro (rfl | hdir)
  · exact ⟨(h.delivers.each _).2 ⟨[], _, rfl, rfl⟩, h.isCheckout⟩
  · exact hdir

/-- A checkout of the workspace lies below the root, and the directories on the way were walked. -/
theorem Survey.location_of_checkout {c : Checkout} (hc : c ∈ h.workspace.checkouts) :
    ∃ rest, (∀ n ∈ root ++ rest, Path.isName n = true) ∧
      c.root = Files.pathOf (root ++ rest) ∧
      ∀ rest', rest' <+: rest → .directory (Files.pathOf (root ++ rest')) ∈ sights :=
  h.exists_location (h.exists_checkout_iff.1 ⟨c, hc, rfl⟩).1

theorem Survey.encloses {c : Checkout} (hc : c ∈ h.workspace.checkouts) :
    (Files.pathOf root).Encloses c.root := by
  obtain ⟨rest, hnames, hroot, -⟩ := h.location_of_checkout hc
  rw [hroot]
  exact (Files.encloses_pathOf_iff h.names hnames).2 (List.prefix_append _ _)

theorem Survey.root_eq_iff {c : Checkout} (hc : c ∈ h.workspace.checkouts) :
    c.root = Files.pathOf root ↔ c = h.workspace.root := by
  constructor
  · intro hroot
    rw [h.indexes.made c hc, h.indexes.outermost, hroot, checkoutAt, if_pos (Path.alike_self _)]
  · rintro rfl
    rw [h.indexes.outermost]
    rfl

/-- Climbing from a directory that was walked leads to the checkout that the workspace answers for
it. -/
theorem Survey.checkoutRoot?_eq {dir : Path} (hdir : .directory dir ∈ sights) :
    ∃ c, h.workspace.containing? dir = some c ∧
      Git.checkoutRoot? files dir = some c.root := by
  obtain ⟨rest, hnames, rfl, hway⟩ := h.exists_location hdir
  have hroot : Files.pathOf root ∈ (Files.pathOf (root ++ rest)).ancestors :=
    (Files.mem_ancestors_pathOf hnames).2 ⟨root, List.prefix_append _ _, rfl⟩
  cases hfind : Git.checkoutRoot? files (Files.pathOf (root ++ rest)) with
  | none => exact absurd h.isCheckout (List.find?_eq_none.1 hfind _ hroot)
  | some found =>
    have hfound : Git.isCheckoutRoot files found = true := by simpa using List.find?_some hfind
    -- what is found lies between the root and the directory, so it was walked
    obtain ⟨loc, hloc, rfl⟩ :=
      (Files.mem_ancestors_pathOf hnames).1 (List.mem_of_find?_eq_some hfind)
    have hinner := Path.encloses_of_find?_ancestors hfind hroot h.isCheckout
    have hlocNames : ∀ n ∈ loc, Path.isName n = true := fun n hn => hnames n (hloc.subset hn)
    obtain ⟨rest', rfl⟩ := (Files.encloses_pathOf_iff h.names hlocNames).1 hinner
    have hwalked := hway rest' ((List.prefix_append_right_inj root).1 hloc)
    obtain ⟨c, hc, hroot'⟩ := h.exists_checkout_iff.2 ⟨hwalked, hfound⟩
    refine ⟨c, (h.indexes.containing _ _).2 ⟨hc, ?_, fun c' hc' hencloses => ?_⟩, by rw [hroot']⟩
    · rw [hroot']
      exact Path.encloses_of_mem_ancestors (List.mem_of_find?_eq_some hfind)
    · obtain ⟨-, hisCheckout⟩ := h.exists_checkout_iff.1 ⟨c', hc', rfl⟩
      obtain ⟨rest'', hnames', heq, -⟩ := h.location_of_checkout hc'
      rw [heq] at hencloses hisCheckout ⊢
      rw [hroot']
      refine Path.encloses_of_find?_ancestors hfind ?_ hisCheckout
      exact (Files.mem_ancestors_pathOf hnames).2
        ⟨_, (Files.encloses_pathOf_iff hnames' hnames).1 hencloses, rfl⟩

/-- A directory that a project is found in was walked. -/
theorem Survey.mem_of_projectIn? {loc : Location} (hloc : ∀ n ∈ loc, Path.isName n = true)
    {pom : Pom} (hpom : h.workspace.projectIn? (Files.pathOf loc) = some pom) :
    .directory (Files.pathOf loc) ∈ sights := by
  obtain ⟨hfound, halike⟩ := (h.indexes.projectIn _ _).1 hpom
  obtain ⟨rest, hnames, hmem, -, hcomponents⟩ :=
    hfound.exists_descend h.wellNamed_entries h.delivers
  have hrest : ∀ n ∈ root ++ rest, Path.isName n = true :=
    List.forall_mem_append.2 ⟨h.names, (List.forall_mem_append.1 hnames).1⟩
  rw [Files.descend_pathOf hrest] at hmem hcomponents
  have hsame : (Files.pathOf (root ++ rest)).components = (Files.pathOf loc).components := by
    rw [← hcomponents]
    simpa [Path.alike] using halike
  rwa [Files.pathOf_injective hrest hloc hsame] at hmem

/-- A checkout other than the outermost one lies in another one, and a climb goes on there if it
goes on. -/
theorem Survey.exists_around {c : Checkout} (hc : c ∈ h.workspace.checkouts)
    (hne : c.root ≠ Files.pathOf root) :
    ∃ e ∈ h.workspace.checkouts, h.workspace.around? c = some e ∧
      Git.above? files c.root = (some e.root).filter (Git.isSubmoduleOf files c.root) ∧
      e.root.depth < c.root.depth ∧ e.root.Encloses c.root ∧
      ∀ d ∈ h.workspace.checkouts,
        d.root.Encloses c.root → d = c ∨ d.root.Encloses e.root := by
  obtain ⟨rest, hnames, hroot, hway⟩ := h.location_of_checkout hc
  rcases List.eq_nil_or_concat rest with rfl | ⟨init, name, rfl⟩
  · exact absurd (by simpa using hroot) hne
  · rw [List.concat_eq_append, ← List.append_assoc] at hnames hroot
    have hparent : c.root.parent? = some (Files.pathOf (root ++ init)) :=
      hroot ▸ Files.parent?_pathOf hnames
    have hparentNames : ∀ n ∈ root ++ init, Path.isName n = true :=
      fun n hn => hnames n (List.mem_append_left _ hn)
    obtain ⟨e, hcontaining, hfind⟩ := h.checkoutRoot?_eq (hway init (by simp))
    obtain ⟨he, hencloses, hinnermost⟩ := (h.indexes.containing _ _).1 hcontaining
    have hup : (Files.pathOf (root ++ init)).Encloses c.root := by
      rw [hroot]
      exact (Files.encloses_pathOf_iff hparentNames hnames).2 (List.prefix_append _ _)
    refine ⟨e, he, by rw [around?, hparent, Option.bind_some, hcontaining], ?_, ?_,
      hencloses.trans hup, fun d hd hdc => ?_⟩
    · rw [Git.above?, hparent, Option.bind_some, hfind]
    · exact Nat.lt_of_le_of_lt hencloses.length_le (Path.depth_parent? hparent)
    · obtain ⟨rest', hnames', hroot', -⟩ := h.location_of_checkout hd
      rw [hroot', hroot, Files.encloses_pathOf_iff hnames' hnames, List.prefix_concat_iff] at hdc
      rcases hdc with hsame | hdc
      · have hone : d.root = c.root := by rw [hroot', hroot, hsame]
        have hlike : d.same c = true := by simp [Checkout.same, hone]
        exact .inl (h.indexes.increasing.eq_of_compare _ hd hc (Checkout.same_iff_order.1 hlike))
      · refine .inr (hinnermost d hd ?_)
        rw [hroot']
        exact (Files.encloses_pathOf_iff hnames' hparentNames).2 hdc

/-- A climb from a checkout of the workspace ends at one that encloses it, and at the outermost one
exactly when all on the way are submodules. -/
theorem Survey.exists_home {c : Checkout} (hc : c ∈ h.workspace.checkouts) :
    ∃ home ∈ h.workspace.checkouts, Git.climb files c.root = home.root ∧
      home.root.Encloses c.root ∧
      (home.root = Files.pathOf root ↔
        ∀ d ∈ h.workspace.checkouts, d.root ≠ Files.pathOf root → d.root.Encloses c.root →
          h.workspace.Belongs files d) := by
  by_cases hne : c.root = Files.pathOf root
  · refine ⟨c, hc, by rw [hne, h.highest], .refl _, fun _ d hd hother hencloses => ?_,
      fun _ => hne⟩
    obtain ⟨rest, hnames, hroot, -⟩ := h.location_of_checkout hd
    rw [hne, hroot, Files.encloses_pathOf_iff hnames h.names] at hencloses
    refine absurd ?_ hother
    rw [hroot, hencloses.eq_of_length_le (by simp)]
  · obtain ⟨e, he, haround, habove, hdepth, hencloses, hbetween⟩ := h.exists_around hc hne
    by_cases hsub : Git.isSubmoduleOf files c.root e.root = true
    · obtain ⟨home, hhome, hclimb, hhomeEncloses, hiff⟩ := Survey.exists_home he
      refine ⟨home, hhome, ?_, hhomeEncloses.trans hencloses, hiff.trans ⟨?_, ?_⟩⟩
      · rw [Git.climb_eq, habove]
        simp [Option.filter, hsub, hclimb]
      · intro hall d hd hother hdc
        rcases hbetween d hd hdc with rfl | hde
        · exact ⟨e, haround, hsub⟩
        · exact hall d hd hother hde
      · exact fun hall d hd hother hde => hall d hd hother (hde.trans hencloses)
    · refine ⟨c, hc, ?_, .refl _, fun heq => absurd heq hne, fun hall => ?_⟩
      · rw [Git.climb_eq, habove]
        simp [Option.filter, hsub]
      · obtain ⟨e', haround', hsub'⟩ := hall c hc hne (.refl _)
        obtain rfl := Option.some.inj (haround.symm.trans haround')
        exact absurd hsub' hsub
termination_by c.root.depth

end

/-! ### An independent clone -/

theorem isCheckoutRoot_of_mem {loc : Location}
    (hloc : loc ∈ [["ws"], ["ws", "clone"], ["ws", "lib"]]) :
    Git.isCheckoutRoot cloneBesideSubmodule (Files.pathOf loc) = true := by
  have hdir : ∃ es node, cloneBesideSubmodule.top.get? loc = some (.directory es) ∧
      es.lookup Git.entryName = some node ∧ ∀ target, node ≠ .link target := by
    simp only [List.mem_cons, List.not_mem_nil, or_false] at hloc
    rcases hloc with rfl | rfl | rfl
    · exact ⟨_, _, rfl, rfl, by simp [Node.emptyDirectory]⟩
    · exact ⟨_, _, rfl, rfl, by simp [Node.emptyDirectory]⟩
    · exact ⟨_, _, rfl, rfl, by simp [Node.ofText]⟩
  obtain ⟨es, node, hdir, hentry, hlink⟩ := hdir
  have husable : ∀ loc ∈ [["ws"], ["ws", "clone"], ["ws", "lib"]], ∀ n ∈ loc,
      Files.isUsable n = true := by decide
  rw [Files.isCheckoutRoot_pathOf hdir (husable loc hloc) (by simp [hentry, hlink]), hentry]
  rfl

theorem outermostRoot?_lib :
    Git.outermostRoot? cloneBesideSubmodule (Files.pathOf ["ws", "lib"]) =
      some (Files.pathOf ["ws"]) := by
  have htop : cloneBesideSubmodule.top.get? [] = some (.directory _) := rfl
  have hlib : cloneBesideSubmodule.top.get? ["ws", "lib"] = some (.directory _) := rfl
  have hfile : cloneBesideSubmodule.isFile ((Files.pathOf ["ws", "lib"]).child Git.entryName) =
      true := by
    rw [Files.child_pathOf (by decide) (by decide), Files.isFile,
      Files.node_entry hlib (by decide) (by simp [Git.entryName, Node.ofText])]
    rfl
  have hnone : Git.checkoutRoot? cloneBesideSubmodule (Files.pathOf []) = none := by
    refine List.find?_eq_none.2 fun q hq => ?_
    obtain ⟨loc, hloc, rfl⟩ := (Files.mem_ancestors_pathOf (by simp)).1 hq
    obtain rfl := List.prefix_nil.1 hloc
    rw [Files.isCheckoutRoot_pathOf htop (by decide) (by simp [Git.entryName, List.lookup_cons])]
    simp [Git.entryName, List.lookup_cons]
  have hlibAbove : Git.above? cloneBesideSubmodule (Files.pathOf ["ws", "lib"]) =
      some (Files.pathOf ["ws"]) := by
    rw [← List.singleton_append, Git.above?_pathOf (by decide),
      Git.checkoutRoot?_of_isCheckoutRoot (isCheckoutRoot_of_mem (by simp))]
    simp [Option.filter, Git.isSubmoduleOf, hfile]
  have hwsAbove : Git.above? cloneBesideSubmodule (Files.pathOf ["ws"]) = none := by
    rw [← List.nil_append ["ws"], Git.above?_pathOf (by decide), hnone]
    rfl
  rw [Git.outermostRoot?_of_isCheckoutRoot (isCheckoutRoot_of_mem (by simp)), Git.climb_eq,
    hlibAbove, Option.map_some, Option.getD_some, Git.climb_eq, hwsAbove]
  rfl

theorem outermostRoot?_clone :
    Git.outermostRoot? cloneBesideSubmodule (Files.pathOf ["ws", "clone"]) =
      some (Files.pathOf ["ws", "clone"]) := by
  have hws : cloneBesideSubmodule.top.get? ["ws"] = some (.directory _) := rfl
  have hclone : cloneBesideSubmodule.top.get? ["ws", "clone"] = some (.directory _) := rfl
  have hfile : cloneBesideSubmodule.isFile ((Files.pathOf ["ws", "clone"]).child Git.entryName) =
      false := by
    rw [Files.child_pathOf (by decide) (by decide), Files.isFile,
      Files.node_entry hclone (by decide) (by simp [Git.entryName, Node.emptyDirectory])]
    rfl
  have hmodules : cloneBesideSubmodule.readText ((Files.pathOf ["ws"]).child ".gitmodules") =
      .error .notFound := by
    rw [Files.child_pathOf (by decide) (by decide), Files.readText, Files.read,
      Files.node_entry hws (by decide) (by simp [List.lookup_cons])]
    rfl
  have habove : Git.above? cloneBesideSubmodule (Files.pathOf ["ws", "clone"]) = none := by
    rw [← List.singleton_append, Git.above?_pathOf (by decide),
      Git.checkoutRoot?_of_isCheckoutRoot (isCheckoutRoot_of_mem (by simp))]
    simp only [List.singleton_append, Option.filter, Git.isSubmoduleOf, hfile, hmodules]
    split <;> rfl
  rw [Git.outermostRoot?_of_isCheckoutRoot (isCheckoutRoot_of_mem (by simp)), Git.climb_eq,
    habove]
  rfl

theorem canonical_lib :
    cloneBesideSubmodule.canonical (Files.pathOf ["ws", "lib"]) =
      .ok (Files.pathOf ["ws", "lib"]) := by
  have hlib : cloneBesideSubmodule.top.get? ["ws", "lib"] = some (.directory _) := rfl
  exact Files.canonical_pathOf hlib (by decide)

/-- A scan around the submodule. -/
theorem exists_survey_lib :
    ∃ es sights s, ∃ h : Survey cloneBesideSubmodule ["ws"] es sights,
      cloneBesideSubmodule.top.get? ["ws"] = some (.directory es) ∧
      scanAround cloneBesideSubmodule (Files.pathOf ["ws", "lib"]) = .ok s ∧
      s.workspace = h.workspace := by
  have hfiles : cloneBesideSubmodule.top.wellNamed = true := by decide +kernel
  obtain ⟨_, top, es, sights, s, h, -, -, htop, hscan, hworkspace⟩ :=
    exists_survey hfiles canonical_lib outermostRoot?_lib
  obtain rfl := Files.pathOf_injective (by decide) h.names (congrArg Path.components htop)
  have hnode := h.node
  rw [← List.nil_append ["ws"], Files.node_entry (by rfl) (by decide) (by simp)] at hnode
  refine ⟨es, sights, s, h, ?_, hscan, hworkspace⟩
  rw [← Except.ok.inj hnode]
  rfl

/-! ### Homes -/

theorem home_checkoutAt (root dir : Path) :
    (checkoutAt root dir).home = .outermost root := by
  rw [checkoutAt]
  split <;> rfl

/-- All checkouts of a scanned workspace count as parts of the outermost one. A climb from one of
them ends at a checkout of the workspace around it, and at the outermost one exactly when each on
the way is a submodule of the next. -/
theorem scanAround_homes {files : Files} (hfiles : files.top.wellNamed = true) {projectDir : Path}
    {s : Scan} (hscan : scanAround files projectDir = .ok s) :
    ∃ dir, files.canonical projectDir = .ok dir ∧
      Git.outermostRoot? files dir = some s.workspace.root.root ∧
      ∀ c ∈ s.workspace.checkouts, c.home = s.workspace.root ∧
        (∃ e ∈ s.workspace.checkouts,
          Git.outermostRoot? files c.root = some e.root ∧ e.root.Encloses c.root) ∧
        (Git.outermostRoot? files c.root = some s.workspace.root.root ↔
          ∀ d ∈ s.workspace.checkouts, d ≠ s.workspace.root → d.root.Encloses c.root →
            s.workspace.Belongs files d) := by
  obtain ⟨dir, root, hcanonical, houtermost⟩ := exists_outermostRoot?_of_scanAround hscan
  obtain ⟨loc, top, es, sights, s', h, rfl, -, rfl, hscan', hworkspace⟩ :=
    exists_survey hfiles hcanonical houtermost
  obtain rfl := Except.ok.inj (hscan.symm.trans hscan')
  rw [hworkspace]
  refine ⟨_, hcanonical, houtermost, fun c hc => ?_⟩
  obtain ⟨e, he, hclimb, hencloses, hiff⟩ := h.exists_home hc
  have hc' := (h.exists_checkout_iff.1 ⟨c, hc, rfl⟩).2
  have hroot : Git.outermostRoot? files c.root = some e.root := by
    rw [Git.outermostRoot?_of_isCheckoutRoot hc', hclimb]
  refine ⟨?_, ⟨e, he, hroot, hencloses⟩, ?_⟩
  · rw [h.indexes.made c hc, home_checkoutAt]
    rfl
  · rw [hroot, Option.some.injEq]
    exact hiff.trans (forall₂_congr fun d hd => imp_congr_left (not_congr (h.root_eq_iff hd)))

theorem scanAround_homes_beside_clone :
    ∃ s, scanAround cloneBesideSubmodule (Files.pathOf ["ws", "lib"]) = .ok s ∧
      ∃ dir, cloneBesideSubmodule.canonical (Files.pathOf ["ws", "lib"]) = .ok dir ∧
      Git.outermostRoot? cloneBesideSubmodule dir = some s.workspace.root.root ∧
      ∀ c ∈ s.workspace.checkouts, c.home = s.workspace.root ∧
        (∃ e ∈ s.workspace.checkouts,
          Git.outermostRoot? cloneBesideSubmodule c.root = some e.root ∧
            e.root.Encloses c.root) ∧
        (Git.outermostRoot? cloneBesideSubmodule c.root = some s.workspace.root.root ↔
          ∀ d ∈ s.workspace.checkouts, d ≠ s.workspace.root → d.root.Encloses c.root →
            s.workspace.Belongs cloneBesideSubmodule d) := by
  obtain ⟨_, _, s, h, -, hscan, -⟩ := exists_survey_lib
  exact ⟨s, hscan, scanAround_homes h.wellNamed hscan⟩

/-- A scan around a submodule takes in the clone beside it, which discovery calls its own root. -/
theorem clone_taken_in :
    ∃ s, scanAround cloneBesideSubmodule (Files.pathOf ["ws", "lib"]) = .ok s ∧
      Git.outermostRoot? cloneBesideSubmodule (Files.pathOf ["ws", "lib"]) =
        some s.workspace.root.root ∧
      ∃ c ∈ s.workspace.checkouts, c.home = s.workspace.root ∧ c ≠ s.workspace.root ∧
        Git.outermostRoot? cloneBesideSubmodule c.root = some c.root := by
  obtain ⟨es, sights, s, h, hget, hscan, hworkspace⟩ := exists_survey_lib
  obtain rfl := Node.directory.inj (Option.some.inj hget)
  have hwalked : .directory (Files.pathOf ["ws", "clone"]) ∈ sights := by
    refine (h.delivers.each _).2 ⟨["clone"], .directory _, rfl, ?_⟩
    rw [Files.descend_pathOf (by decide)]
    rfl
  obtain ⟨c, hc, hroot⟩ := h.exists_checkout_iff.2 ⟨hwalked, isCheckoutRoot_of_mem (by simp)⟩
  have hindexes := h.indexes
  rw [← hworkspace] at hc hindexes
  have hrootPath : s.workspace.root = .outermost (Files.pathOf ["ws"]) := hindexes.outermost
  refine ⟨s, hscan, hrootPath ▸ outermostRoot?_lib, c, hc, ?_, ?_, ?_⟩
  · rw [hrootPath, hindexes.made c hc, home_checkoutAt]
  · rw [hrootPath]
    rintro rfl
    exact absurd hroot (by decide)
  · rw [hroot, outermostRoot?_clone]

end Workspace

end Grove
