import Mathlib.Data.List.Induction
import Grove.Git.Discovery
import Grove.Proofs.Trees

/-!
# Canonical paths

The canonical path of what another path leads to starts at the top and passes no link. It is written
out as the names of a location, so its ancestors are the paths of the shorter locations, to the
letter, and what lies below it is named by going on from there.

## What is proved

* `exists_pathOf_of_canonical` — a canonical path is that of a location that holds something.
* `mem_ancestors_pathOf`, `encloses_pathOf_iff` — what encloses the path of a location.
* `exists_node_of_isCheckoutRoot` — a checkout root is a directory.
-/

namespace Grove

namespace Path

theorem dropNoise_eq_self {pieces : List String} (h : ∀ n ∈ pieces, isName n = true) :
    dropNoise pieces = pieces := by
  rcases List.eq_nil_or_concat pieces with rfl | ⟨init, last, rfl⟩
  · rfl
  · have hlast : isName last = true := h last (by simp)
    simp only [isName, Bool.and_eq_true, Bool.not_eq_true'] at hlast
    simp [dropNoise, hlast.1.1]

end Path

namespace Files

/-! ### Paths of locations -/

theorem pathOf_concat (loc : Location) (name : String) :
    pathOf (loc ++ [name]) = ⟨"" :: (loc ++ [name])⟩ := by
  cases loc <;> rfl

theorem child_pathOf {loc : Location} {name : String}
    (hloc : ∀ n ∈ loc, Path.isName n = true) (hname : Path.isName name = true) :
    (pathOf loc).child name = pathOf (loc ++ [name]) := by
  rw [Path.child, Path.ofString_of_isName hname, pathOf_concat]
  rcases List.eq_nil_or_concat loc with rfl | ⟨init, last, rfl⟩
  · simp [pathOf, Path.join]
  · have hlast : last ≠ "" := Path.ne_empty_of_isName (hloc last (by simp))
    rw [List.concat_eq_append, pathOf_concat, Path.join, ← List.cons_append, List.getLast?_append,
      List.getLast?_singleton, Option.some_or]
    simp

theorem descend_pathOf {loc rest : Location} (h : ∀ n ∈ loc ++ rest, Path.isName n = true) :
    (pathOf loc).descend rest = pathOf (loc ++ rest) := by
  induction rest generalizing loc with
  | nil => simp
  | cons name rest ih =>
    have hloc : ∀ n ∈ loc, Path.isName n = true := fun n hn => h n (List.mem_append_left _ hn)
    rw [Path.descend_cons, child_pathOf hloc (h name (by simp)), ih (by simpa using h),
      List.append_assoc, List.singleton_append]

theorem components_pathOf {loc : Location} (h : ∀ n ∈ loc, Path.isName n = true) :
    (pathOf loc).components = .root :: loc.map .name := by
  have htop : (pathOf []).components = [.root] := rfl
  have hdescend := @descend_pathOf [] loc h
  rw [List.nil_append] at hdescend
  rw [← hdescend, Path.components_descend _ h, htop, List.singleton_append]

/-- The directory of an entry. -/
theorem parent?_pathOf {loc : Location} {name : String}
    (h : ∀ n ∈ loc ++ [name], Path.isName n = true) :
    (pathOf (loc ++ [name])).parent? = some (pathOf loc) := by
  have hloc : ∀ n ∈ loc, Path.isName n = true := fun n hn => h n (List.mem_append_left _ hn)
  simp only [pathOf_concat, Path.parent?, Path.dropNoise_eq_self h]
  split
  · next hnil => simp at hnil
  · rw [List.dropLast_concat, Path.dropNoise_eq_self hloc]
    cases loc <;> simp [pathOf]

/-- The ancestors of the path of a location are those of the shorter locations. -/
theorem mem_ancestors_pathOf {loc : Location} (h : ∀ n ∈ loc, Path.isName n = true) {q : Path} :
    q ∈ (pathOf loc).ancestors ↔ ∃ loc', loc' <+: loc ∧ q = pathOf loc' := by
  induction loc using List.reverseRecOn with
  | nil =>
    have htop : (pathOf []).parent? = none := rfl
    rw [Path.ancestors]
    split
    · simp
    · next parent hparent => simp [htop] at hparent
  | append_singleton loc name ih =>
    have hloc : ∀ n ∈ loc, Path.isName n = true := fun n hn => h n (List.mem_append_left _ hn)
    rw [Path.ancestors]
    split
    · next hparent => simp [parent?_pathOf h] at hparent
    · next parent hparent =>
      obtain rfl := Option.some.inj ((parent?_pathOf h).symm.trans hparent)
      rw [List.mem_cons, ih hloc]
      simp only [List.prefix_concat_iff, or_and_right, exists_or, exists_eq_left]

theorem pathOf_injective {loc loc' : Location} (h : ∀ n ∈ loc, Path.isName n = true)
    (h' : ∀ n ∈ loc', Path.isName n = true)
    (halike : (pathOf loc).components = (pathOf loc').components) : loc = loc' := by
  rw [components_pathOf h, components_pathOf h', List.cons.injEq] at halike
  exact (List.map_inj_right fun _ _ => Component.name.inj).1 halike.2

theorem encloses_pathOf_iff {loc loc' : Location} (h : ∀ n ∈ loc, Path.isName n = true)
    (h' : ∀ n ∈ loc', Path.isName n = true) :
    (pathOf loc).Encloses (pathOf loc') ↔ loc <+: loc' := by
  rw [Path.Encloses, components_pathOf h, components_pathOf h', List.prefix_cons_inj,
    List.prefix_map_iff_of_injective fun _ _ => Component.name.inj]

/-! ### Where paths lead -/

/-- A path that leads somewhere leads to a node. -/
theorem isSome_get?_of_follow {top : Node} {through : Bool} {links : Nat} {from_ : Location}
    {steps : List String} {place : Place} (hfrom : (top.get? from_).isSome = true)
    (h : follow top through links from_ steps = .ok place) (hpresent : place.present = true) :
    (top.get? place.location).isSome = true := by
  fun_induction follow top through links from_ steps with
  | case1 =>
    obtain rfl := Except.ok.inj h
    exact hfrom
  | case3 _ _ _ _ _ _ _ ih => exact ih hfrom h
  | case4 _ _ _ _ _ _ ih => exact ih (Node.isSome_get?_of_prefix (List.dropLast_prefix _) hfrom) h
  | case7 =>
    obtain rfl := Except.ok.inj h
    simp at hpresent
  | case9 _ _ _ _ _ hdir _ _ _ _ _ hentry =>
    obtain rfl := Except.ok.inj h
    simp [Node.get?_concat hdir hentry]
  | case11 _ _ _ _ _ _ _ _ _ _ _ _ _ ih =>
    refine ih ?_ h
    split
    · rfl
    · exact hfrom
  | case12 _ _ _ _ _ hdir _ _ _ _ _ _ hentry ih =>
    exact ih (by simp [Node.get?_concat hdir hentry]) h
  | _ => simp at h

/-- What can be entered is a directory. -/
theorem follow_of_append {top : Node} {links : Nat} {from_ : Location}
    {steps : List String} {last : String} (hlast : Path.isNoise last = false) {place : Place}
    (h : follow top true links from_ (steps ++ [last]) = .ok place) :
    ∃ loc es, follow top true links from_ steps = .ok ⟨loc, true⟩ ∧
      top.get? loc = some (.directory es) := by
  fun_induction follow top true links from_ steps with
  | case1 links from_ =>
    cases hdir : top.get? from_ with
    | none => simp [follow, hdir] at h
    | some n =>
      cases n with
      | directory es => exact ⟨from_, es, rfl, hdir⟩
      | file content executable => simp [follow, hdir] at h
      | link target => simp [follow, hdir] at h
  | _ =>
    -- the first step is taken alike with and without the last one
    rw [List.cons_append, follow] at h
    grind

variable {files : Files}

/-- A canonical path is that of a location that holds something. -/
theorem exists_pathOf_of_canonical {p dir : Path} (h : files.canonical p = .ok dir) :
    ∃ loc, dir = pathOf loc ∧ (files.top.get? loc).isSome = true := by
  rw [canonical] at h
  cases hplace : files.place p with
  | error e => simp [hplace, bind, Except.bind] at h
  | ok place =>
    simp only [hplace, bind, Except.bind] at h
    split at h
    · next hpresent =>
      refine ⟨place.location, (Except.ok.inj h).symm, ?_⟩
      rw [Files.place] at hplace
      split at hplace
      · simp at hplace
      · next hne =>
        refine isSome_get?_of_follow ?_ hplace hpresent
        -- the path has a step, and that needs a directory to start from
        cases hpieces : p.pieces with
        | nil => simp [Path.components, hpieces] at hne
        | cons step rest =>
          refine Option.isSome_iff_ne_none.2 fun hnone => ?_
          rw [hpieces, follow, hnone] at hplace
          simp at hplace
    · simp at h

theorem place_pathOf {loc : Location} (h : ∀ n ∈ loc, Path.isName n = true) :
    files.place (pathOf loc) = follow files.top true maxLinks [] ("" :: loc) := by
  have hcomponents := components_pathOf h
  rw [place, if_neg (by simp [hcomponents]), if_pos (by simp [Path.isAbsolute, hcomponents])]
  cases loc with
  | nil =>
    have hnoise : Path.isNoise "" = true := rfl
    cases htop : files.top <;> simp [pathOf, follow, Node.get?, hnoise]
  | cons first rest => rfl

/-- A checkout root is a directory. -/
theorem exists_node_of_isCheckoutRoot {loc : Location} (h : ∀ n ∈ loc, Path.isName n = true)
    (hroot : Git.isCheckoutRoot files (pathOf loc) = true) :
    ∃ es, files.node (pathOf loc) = .ok (.directory es) := by
  have hname : Path.isName Git.entryName = true := by decide
  have hentry : ∀ n ∈ loc ++ [Git.entryName], Path.isName n = true :=
    List.forall_mem_append.2 ⟨h, List.forall_mem_singleton.2 hname⟩
  rw [Git.isCheckoutRoot, child_pathOf h hname, holds] at hroot
  cases hnode : files.node (pathOf (loc ++ [Git.entryName])) with
  | error e => simp [hnode, Except.isOk, Except.toBool] at hroot
  | ok n =>
    obtain ⟨place, hplace, -⟩ := node_eq_ok_iff.1 hnode
    rw [place_pathOf hentry, ← List.cons_append] at hplace
    obtain ⟨dir, es, hfollow, hdir⟩ := follow_of_append (by decide) hplace
    exact ⟨es, node_eq_ok_iff.2 ⟨_, (place_pathOf h).trans hfollow, hdir⟩⟩

/-- Whether a name can be that of an entry. -/
def isUsable (name : String) : Bool :=
  Path.isName name && Text.nameSize name ≤ maxNameBytes && !Text.hasZero name

theorem isName_of_isUsable {name : String} (h : isUsable name = true) :
    Path.isName name = true := by
  simp only [isUsable, Bool.and_eq_true] at h
  exact h.1.1

/-- The name of an entry that is no link leads there; only as the last one it may be missing. -/
theorem follow_entry {top : Node} {links : Nat} {from_ : Location} {name : String}
    {rest : List String} {es : List (String × Node)} (hname : isUsable name = true)
    (hfrom : top.get? from_ = some (.directory es))
    (hlink : ∀ target, es.lookup name ≠ some (.link target)) :
    follow top true links from_ (name :: rest) =
      if (es.lookup name).isSome then follow top true links (from_ ++ [name]) rest
      else if rest.all Path.isNoise then .ok ⟨from_ ++ [name], false⟩ else .error .notFound := by
  simp only [isUsable, Path.isName, Bool.and_eq_true, Bool.not_eq_true', bne_iff_ne,
    decide_eq_true_iff] at hname
  obtain ⟨⟨⟨⟨hnoise, hup⟩, -⟩, hshort⟩, hnul⟩ := hname
  rw [follow, hfrom]
  simp only [hnoise, hup, hnul, Nat.not_lt.2 hshort, Bool.false_eq_true, if_false]
  split
  · next hnone => simp [hnone]
  · next target hentry => exact absurd hentry (hlink target)
  · next hentry => simp [hentry]

/-- The names of a directory lead there. -/
theorem follow_directory {top : Node} {links : Nat} {loc : Location} {rest : List String}
    {es : List (String × Node)} (hloc : ∀ n ∈ loc, isUsable n = true)
    (hdir : top.get? loc = some (.directory es)) :
    follow top true links [] (loc ++ rest) = follow top true links loc rest := by
  induction loc using List.reverseRecOn generalizing rest es with
  | nil => rfl
  | append_singleton loc name ih =>
    obtain ⟨es', hdir', hentry⟩ := Node.exists_directory_of_get?_concat hdir
    have hname : isUsable name = true := hloc name (by simp)
    rw [List.append_assoc, ih (fun n hn => hloc n (List.mem_append_left _ hn)) hdir',
      List.singleton_append, follow_entry hname hdir' (by simp [hentry]), hentry]
    rfl

section

variable {loc : Location} {es : List (String × Node)}
  (hdir : files.top.get? loc = some (.directory es))

include hdir

theorem place_below_directory {rest : Location} (hloc : ∀ n ∈ loc, isUsable n = true)
    (hrest : ∀ n ∈ rest, isUsable n = true) :
    files.place (pathOf (loc ++ rest)) = follow files.top true maxLinks loc rest := by
  have htop : ∃ es', files.top = .directory es' := by
    cases htop : files.top <;> cases loc <;> simp_all [Node.get?]
  obtain ⟨es', htop⟩ := htop
  have hnoise : Path.isNoise "" = true := rfl
  have hnames : ∀ n ∈ loc ++ rest, Path.isName n = true := fun n hn =>
    isName_of_isUsable (List.forall_mem_append.2 ⟨hloc, hrest⟩ n hn)
  rw [place_pathOf hnames, ← follow_directory hloc hdir, htop, follow]
  simp [Node.get?, hnoise]

/-- The path of a directory is canonical. -/
theorem canonical_pathOf (hloc : ∀ n ∈ loc, isUsable n = true) :
    files.canonical (pathOf loc) = .ok (pathOf loc) := by
  have hplace := place_below_directory hdir hloc (List.forall_mem_nil _)
  rw [List.append_nil, follow] at hplace
  simp [canonical, hplace, bind, Except.bind]

/-- The path of an entry that is no link leads to the entry, if it is there. -/
theorem node_entry {name : String} (hnames : ∀ n ∈ loc ++ [name], isUsable n = true)
    (hlink : ∀ target, es.lookup name ≠ some (.link target)) :
    files.node (pathOf (loc ++ [name])) = (es.lookup name).elim (.error .notFound) .ok := by
  obtain ⟨hloc, hname⟩ := List.forall_mem_append.1 hnames
  rw [node, place_below_directory hdir hloc hname,
    follow_entry (hname name List.mem_cons_self) hdir hlink, follow]
  cases hentry : es.lookup name with
  | none =>
    have hnone : files.top.get? (loc ++ [name]) = none := by
      rw [Node.get?_append, hdir]
      simp [Node.get?, hentry]
    simp [bind, Except.bind, hnone]
  | some n => simp [bind, Except.bind, Node.get?_concat hdir hentry]

theorem isCheckoutRoot_pathOf (hloc : ∀ n ∈ loc, isUsable n = true)
    (hlink : ∀ target, es.lookup Git.entryName ≠ some (.link target)) :
    Git.isCheckoutRoot files (pathOf loc) = (es.lookup Git.entryName).isSome := by
  have hname : isUsable Git.entryName = true := by decide
  have hnames : ∀ n ∈ loc ++ [Git.entryName], isUsable n = true :=
    List.forall_mem_append.2 ⟨hloc, List.forall_mem_singleton.2 hname⟩
  rw [Git.isCheckoutRoot, child_pathOf (fun n hn => isName_of_isUsable (hloc n hn))
    (isName_of_isUsable hname), holds, node_entry hdir hnames hlink]
  cases es.lookup Git.entryName <;> rfl

end

end Files

end Grove
