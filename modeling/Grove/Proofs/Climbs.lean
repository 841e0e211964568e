import Grove.Proofs.Discovery
import Grove.Proofs.FileWrites

/-!
# Climbing to the outermost checkout

The outermost checkout around a directory is found by looking for the nearest checkout root and then
climbing, from each checkout to the nearest one around it, as long as the inner one is a submodule of
the outer. Here both are told by what they find: which root is the nearest one (`Nearest`) and what a
step up leads to (`StepUp`), without the search and without the loop.

A step leads to a shorter path, so a climb cannot go on for ever, however it is continued. A step is
determined by where it starts, so a climb that goes as far as it can ends at one place, and so does
every climb that joins it on the way: whoever starts from a directory whose nearest checkout was
passed finds the same outermost checkout.

Paths stand for themselves here, as they are written.

## What is proved

* `checkoutRoot?_eq_some_iff` — the root found is the nearest one.
* `isSubmoduleOf_iff` — when a checkout is a submodule of another one.
* `above?_eq_some_iff`, `StepUp.depth_lt`, `length_le_depth` — steps of a climb, and that there are
  only so many.
* `exists_way`, `climb_of_mem_way` — a climb goes step by step, and joins wherever it is entered.
* `outermost_reached` — what the outermost checkout of a directory is.
-/

namespace Grove

/-- Of the ancestors of a path no two are equally deep. -/
theorem Path.eq_of_mem_ancestors {p a b : Path} (ha : a ∈ p.ancestors) (hb : b ∈ p.ancestors)
    (h : a.depth = b.depth) : a = b := by
  have hnodup : (p.ancestors.map Path.depth).Nodup :=
    List.pairwise_map.2 (p.pairwise_ancestors.imp Nat.ne_of_gt)
  exact List.inj_on_of_nodup_map hnodup ha hb h

namespace Git

/-! ### What is found -/

/-- The nearest checkout root of a directory: it is the directory or encloses it, and so do all
others around the directory enclose it. -/
structure Nearest (files : Files) (dir root : Path) : Prop where
  /-- It is the directory or encloses it. -/
  mem : root ∈ dir.ancestors
  /-- It is a checkout root. -/
  isRoot : isCheckoutRoot files root = true
  /-- No other one around the directory lies further in. -/
  innermost : ∀ other ∈ dir.ancestors, isCheckoutRoot files other = true → other.Encloses root

/-- A checkout is a submodule of one around it. -/
inductive IsSubmodule (files : Files) (checkout outer : Path) : Prop
  /-- Its entry is a file. -/
  | linked (h : files.isFile (checkout.child entryName) = true)
  /-- The outer checkout lists the path that leads to it from there. -/
  | listed {rest : Path} {modules : String} (hrest : checkout.stripStart? outer = some rest)
      (hmodules : files.readText (outer.child ".gitmodules") = .ok modules)
      (h : Checkout.slashed rest.text ∈ submodulePaths modules)

/-- A step of a climb: from a submodule to the nearest checkout around it. -/
structure StepUp (files : Files) (checkout outer : Path) : Prop where
  /-- The outer checkout is the nearest one around the checkout. -/
  nearest : ∃ parent, checkout.parent? = some parent ∧ Nearest files parent outer
  /-- The checkout is a submodule of it. -/
  submodule : IsSubmodule files checkout outer

variable {files : Files} {dir root checkout outer : Path}

/-- The root that is found is the nearest one. -/
theorem checkoutRoot?_eq_some_iff :
    checkoutRoot? files dir = some root ↔ Nearest files dir root := by
  have hfound : ∀ {root}, checkoutRoot? files dir = some root → Nearest files dir root :=
    fun h => ⟨List.mem_of_find?_eq_some h, List.find?_some h,
      fun _ => Path.encloses_of_find?_ancestors h⟩
  refine ⟨hfound, fun h => ?_⟩
  cases hfind : checkoutRoot? files dir with
  | none => exact absurd h.isRoot (List.find?_eq_none.1 hfind root h.mem)
  | some found =>
    have hnearest := hfound hfind
    rw [Path.eq_of_mem_ancestors hnearest.mem h.mem]
    exact Nat.le_antisymm (h.innermost found hnearest.mem hnearest.isRoot).length_le
      (hnearest.innermost root h.mem h.isRoot).length_le

theorem Nearest.unique {root' : Path} (h : Nearest files dir root) (h' : Nearest files dir root') :
    root = root' :=
  Option.some.inj ((checkoutRoot?_eq_some_iff.2 h).symm.trans (checkoutRoot?_eq_some_iff.2 h'))

theorem isSubmoduleOf_iff :
    isSubmoduleOf files checkout outer = true ↔ IsSubmodule files checkout outer := by
  rw [isSubmoduleOf, Bool.or_eq_true]
  constructor
  · rintro (hfile | hlisted)
    · exact .linked hfile
    · split at hlisted
      · cases hlisted
      · next rest hrest =>
        split at hlisted
        · next modules hmodules => exact .listed hrest hmodules (by simpa using hlisted)
        · cases hlisted
  · rintro (hfile | ⟨hrest, hmodules, h⟩)
    · exact .inl hfile
    · exact .inr (by simpa only [hrest, hmodules, decide_eq_true_eq] using h)

/-! ### Steps -/

theorem above?_eq_some_iff : above? files checkout = some outer ↔ StepUp files checkout outer := by
  rw [above?, Option.bind_eq_some_iff]
  simp only [Option.filter_eq_some_iff, checkoutRoot?_eq_some_iff, isSubmoduleOf_iff]
  constructor
  · rintro ⟨parent, hparent, hnearest, hsubmodule⟩
    exact ⟨⟨parent, hparent, hnearest⟩, hsubmodule⟩
  · rintro ⟨⟨parent, hparent, hnearest⟩, hsubmodule⟩
    exact ⟨parent, hparent, hnearest, hsubmodule⟩

/-- A step leads to a shorter path. -/
theorem StepUp.depth_lt (h : StepUp files checkout outer) : outer.depth < checkout.depth := by
  obtain ⟨parent, hparent, hnearest⟩ := h.nearest
  exact Nat.lt_of_le_of_lt (Path.depth_le_of_mem_ancestors hnearest.mem) (Path.depth_parent? hparent)

/-- No climb is longer than the path it starts from. -/
theorem length_le_depth {rest : List Path}
    (h : List.IsChain (StepUp files) (checkout :: rest)) : rest.length ≤ checkout.depth := by
  induction rest generalizing checkout with
  | nil => exact Nat.zero_le _
  | cons outer rest ih =>
    rw [List.isChain_cons_cons] at h
    have hlt := h.1.depth_lt
    have hle := ih h.2
    rw [List.length_cons]
    omega

/-! ### Climbs -/

theorem climb_of_stepUp (h : StepUp files checkout outer) :
    climb files checkout = climb files outer := by
  rw [climb_eq, above?_eq_some_iff.2 h]
  rfl

/-- From where a climb ends no step leads on. -/
theorem not_stepUp_climb : ¬StepUp files (climb files checkout) outer := by
  rw [← above?_eq_some_iff, above?_climb]
  simp

/-- A climb goes step by step. -/
theorem exists_way (files : Files) (checkout : Path) :
    ∃ rest, List.IsChain (StepUp files) (checkout :: rest) ∧
      (checkout :: rest).getLast? = some (climb files checkout) := by
  cases habove : above? files checkout with
  | none =>
    refine ⟨[], .singleton _, ?_⟩
    rw [climb_eq, habove]
    rfl
  | some outer =>
    have hstep := above?_eq_some_iff.1 habove
    have hlt := hstep.depth_lt
    obtain ⟨rest, hchain, hlast⟩ := exists_way files outer
    refine ⟨outer :: rest, List.isChain_cons_cons.2 ⟨hstep, hchain⟩, ?_⟩
    rw [List.getLast?_cons_cons, hlast, climb_of_stepUp hstep]
termination_by checkout.depth

/-- A climb ends at the same place from wherever on the way it starts. -/
theorem climb_of_mem_way {rest : List Path}
    (h : List.IsChain (StepUp files) (checkout :: rest)) :
    ∀ c ∈ checkout :: rest, climb files c = climb files checkout := by
  induction rest generalizing checkout with
  | nil => simp
  | cons outer rest ih =>
    rw [List.isChain_cons_cons] at h
    refine List.forall_mem_cons.2 ⟨rfl, fun c hc => ?_⟩
    rw [ih h.2 c hc, climb_of_stepUp h.1]

/-! ### The result -/

/-- **The outermost checkout is where climbing ends.** There is none exactly where neither the
directory nor any around it holds a checkout. No climb takes more steps than its start is deep.
Where there is an outermost checkout, it is a checkout root around the directory and its own
outermost one; it is reached from the nearest one by steps up, and no step leads on from it; and every
directory whose nearest checkout is one of those on the way has the same outermost checkout. -/
theorem outermost_reached (files : Files) (dir : Path) :
    (outermostRoot? files dir = none ↔ ∀ p ∈ dir.ancestors, isCheckoutRoot files p = false) ∧
    (∀ checkout rest, List.IsChain (StepUp files) (checkout :: rest) →
      rest.length ≤ checkout.depth) ∧
    ∀ root, outermostRoot? files dir = some root →
      root ∈ dir.ancestors ∧ isCheckoutRoot files root = true ∧
      outermostRoot? files root = some root ∧
      ∃ nearest rest, Nearest files dir nearest ∧ List.IsChain (StepUp files) (nearest :: rest) ∧
        (nearest :: rest).getLast? = some root ∧ (∀ outer, ¬StepUp files root outer) ∧
        ∀ c ∈ nearest :: rest, ∀ other, Nearest files other c →
          outermostRoot? files other = some root := by
  refine ⟨?_, fun _ _ => length_le_depth, fun root hroot => ?_⟩
  · rw [outermostRoot?, Option.map_eq_none_iff, checkoutRoot?, List.find?_eq_none]
    simp
  · obtain ⟨nearest, hfound, rfl⟩ := Option.map_eq_some_iff.1 hroot
    have hnearest := checkoutRoot?_eq_some_iff.1 hfound
    obtain ⟨hisRoot, hup⟩ := climb_spec hnearest.isRoot
    obtain ⟨rest, hchain, hlast⟩ := exists_way files nearest
    refine ⟨Path.ancestors_trans hnearest.mem hup, hisRoot, ?_, nearest, rest, hnearest, hchain,
      hlast, fun _ => not_stepUp_climb, fun c hc other hother => ?_⟩
    · rw [outermostRoot?_of_isCheckoutRoot hisRoot, climb_climb]
    · rw [outermostRoot?, checkoutRoot?_eq_some_iff.2 hother, Option.map_some,
        climb_of_mem_way hchain c hc]

/-! ### A submodule in a submodule -/

/-- A checkout with a list of its submodules, and a checkout in it that another one is linked to. -/
def nestedCheckouts (modules : String) : Files :=
  ⟨.directory [("ws", .directory
    [(".gitmodules", .ofText modules), (".git", .emptyDirectory),
      ("lib", .directory
        [(".git", .emptyDirectory), ("core", .directory [(".git", .ofText "gitdir: x")])])])], []⟩

theorem readText_nestedCheckouts (modules : String) :
    (nestedCheckouts modules).readText ((Files.pathOf ["ws"]).child ".gitmodules") =
      .ok modules := by
  have hws : (nestedCheckouts modules).top.get? ["ws"] = some (.directory _) := rfl
  refine Files.readText_of_read ?_
  rw [Files.child_pathOf (by decide) (by decide), Files.read,
    Files.node_entry hws (by decide) (by simp [Node.ofText])]
  rfl

theorem isCheckoutRoot_nestedCheckouts (modules : String) :
    ∀ loc ∈ [["ws"], ["ws", "lib"], ["ws", "lib", "core"]],
      isCheckoutRoot (nestedCheckouts modules) (Files.pathOf loc) = true := by
  have hroot : ∀ {loc es n}, (∀ name ∈ loc, Files.isUsable name = true) →
      (nestedCheckouts modules).top.get? loc = some (.directory es) →
      es.lookup entryName = some n → (∀ target, n ≠ .link target) →
      isCheckoutRoot (nestedCheckouts modules) (Files.pathOf loc) = true := by
    intro loc es n husable hdir hentry hlink
    rw [Files.isCheckoutRoot_pathOf hdir husable (by simp [hentry, hlink]), hentry]
    rfl
  simp only [List.forall_mem_cons]
  refine ⟨hroot (by decide) rfl rfl nofun, hroot (by decide) rfl rfl nofun,
    hroot (by decide) rfl rfl nofun, nofun⟩

theorem stepUp_core (modules : String) :
    StepUp (nestedCheckouts modules) (Files.pathOf ["ws", "lib", "core"])
      (Files.pathOf ["ws", "lib"]) := by
  have hcore : (nestedCheckouts modules).top.get? ["ws", "lib", "core"] = some (.directory _) := rfl
  have hlib := isCheckoutRoot_nestedCheckouts modules ["ws", "lib"] (by simp)
  refine ⟨⟨_, @Files.parent?_pathOf ["ws", "lib"] "core" (by decide),
    checkoutRoot?_eq_some_iff.1 (checkoutRoot?_of_isCheckoutRoot hlib)⟩, .linked ?_⟩
  rw [Files.child_pathOf (by decide) (by decide), Files.isFile,
    Files.node_entry hcore (by decide) (by simp [entryName, Node.ofText])]
  rfl

theorem stepUp_lib :
    StepUp (nestedCheckouts "path = lib/") (Files.pathOf ["ws", "lib"]) (Files.pathOf ["ws"]) := by
  have hws := isCheckoutRoot_nestedCheckouts "path = lib/" ["ws"] (by simp)
  have hrest : (Files.pathOf ["ws", "lib"]).stripStart? (Files.pathOf ["ws"]) = some ⟨["lib"]⟩ := by
    decide +kernel
  exact ⟨⟨_, @Files.parent?_pathOf ["ws"] "lib" (by decide),
    checkoutRoot?_eq_some_iff.1 (checkoutRoot?_of_isCheckoutRoot hws)⟩,
    .listed hrest (readText_nestedCheckouts _) (by decide +kernel)⟩

theorem not_stepUp_ws {modules : String} {outer : Path} :
    ¬StepUp (nestedCheckouts modules) (Files.pathOf ["ws"]) outer := by
  rintro ⟨⟨parent, hparent, hnearest⟩, -⟩
  obtain rfl := Option.some.inj ((@Files.parent?_pathOf [] "ws" (by decide)).symm.trans hparent)
  obtain ⟨loc, hloc, rfl⟩ := (Files.mem_ancestors_pathOf (by simp)).1 hnearest.mem
  obtain rfl := List.prefix_nil.1 hloc
  have htop : (nestedCheckouts modules).top.get? [] = some (.directory _) := rfl
  have hroot := hnearest.isRoot
  rw [Files.isCheckoutRoot_pathOf htop (by decide) (by simp [entryName, List.lookup_cons])] at hroot
  simp [entryName, List.lookup_cons] at hroot

theorem outermostRoot?_core :
    outermostRoot? (nestedCheckouts "path = lib/") (Files.pathOf ["ws", "lib", "core"]) =
      some (Files.pathOf ["ws"]) := by
  have hcore := isCheckoutRoot_nestedCheckouts "path = lib/" ["ws", "lib", "core"] (by simp)
  have htop : above? (nestedCheckouts "path = lib/") (Files.pathOf ["ws"]) = none :=
    Option.eq_none_iff_forall_ne_some.2 fun _ h => not_stepUp_ws (above?_eq_some_iff.1 h)
  rw [outermostRoot?_of_isCheckoutRoot hcore, climb_of_stepUp (stepUp_core _),
    climb_of_stepUp stepUp_lib, climb_eq, htop]
  rfl

theorem outermost_reached_from_core :
    let files := nestedCheckouts "path = lib/"
    let ws := Files.pathOf ["ws"]
    outermostRoot? files ws = some ws ∧
    ∃ nearest rest, Nearest files (Files.pathOf ["ws", "lib", "core"]) nearest ∧
      List.IsChain (StepUp files) (nearest :: rest) ∧ (nearest :: rest).getLast? = some ws ∧
      (∀ outer, ¬StepUp files ws outer) ∧
      ∀ c ∈ nearest :: rest, ∀ other, Nearest files other c →
        outermostRoot? files other = some ws := by
  intro files ws
  obtain ⟨-, -, hreached⟩ := outermost_reached files (Files.pathOf ["ws", "lib", "core"])
  exact (hreached _ outermostRoot?_core).2.2

end Git

end Grove
