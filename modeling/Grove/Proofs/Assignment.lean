import Mathlib.Data.List.Nodup
import Grove.Proofs.ChangeDetection
import Grove.Proofs.Paths

/-!
# Projects and their checkouts

A workspace is made of the checkout roots and the projects that were found, in whatever order they
were come across. Each project belongs to the innermost checkout that encloses it, and the question
for the checkout around a directory finds the same one.

## What is proved

* `Workspace.enclosing?_eq_some_iff` — the checkout found is the innermost one that encloses.
* `Workspace.ofFinds_perm` — the order in which checkouts and projects are found does not matter.
* `Workspace.mem_projectsOf_iff`, `Workspace.projects_perm`, `Workspace.projectIn?_eq_some_iff` —
  each project is listed once, in its checkout, and is found by its directory.
-/

namespace Grove

/-! ### Sets in order -/

namespace Ordered

variable {α : Type} {cmp : α → α → Ordering}

/-- Lists in order with the same elements are the same. -/
theorem Increasing.ext [Std.TransCmp cmp] {xs ys : List α} (hxs : Increasing cmp xs)
    (hys : Increasing cmp ys) (h : ∀ x, x ∈ xs ↔ x ∈ ys) : xs = ys := by
  refine List.Perm.eq_of_pairwise (fun a b _ _ hab hba => ?_) hxs hys
    ((List.perm_ext_iff_of_nodup hxs.nodup hys.nodup).2 h)
  have := Std.OrientedCmp.gt_of_lt hab
  rw [hba] at this
  simp at this

/-- Where different elements of a list compare as different, its set holds all of them. -/
theorem mem_ofList_of_distinct [Std.ReflCmp cmp] {xs : List α}
    (h : ∀ x ∈ xs, ∀ y ∈ xs, cmp x y = .eq → x = y) {x : α} : x ∈ ofList cmp xs ↔ x ∈ xs := by
  refine ⟨mem_of_mem_ofList cmp, fun hx => ?_⟩
  obtain ⟨y, hy, hxy⟩ := exists_mem_ofList cmp hx
  rwa [h x hx y (mem_of_mem_ofList cmp hy) hxy]

end Ordered

/-! ### The order of projects -/

instance : Std.TransCmp Coordinates.order :=
  inferInstanceAs (Std.TransCmp (compareLex
    (compareLex (compareOn fun c : Coordinates => c.group) (compareOn fun c => c.artifact))
    (compareOn fun c => c.version)))

namespace Pom

instance : Std.TransCmp order :=
  have : Std.TransCmp fun a b : Pom => a.path.order b.path :=
    { eq_swap := fun {_ _} => Std.OrientedCmp.eq_swap
      isLE_trans := fun {_ _ _} h h' => Std.TransCmp.isLE_trans h h' }
  have : Std.TransCmp fun a b : Pom => a.coordinates.order b.coordinates :=
    { eq_swap := fun {_ _} => Std.OrientedCmp.eq_swap
      isLE_trans := fun {_ _ _} h h' => Std.TransCmp.isLE_trans h h' }
  inferInstanceAs (Std.TransCmp (compareLex (fun a b : Pom => a.path.order b.path)
    fun a b => a.coordinates.order b.coordinates))

theorem le_trans {a b c : Pom} (hab : le a b = true) (hbc : le b c = true) : le a c = true :=
  @Std.TransCmp.isLE_trans _ order _ a b c hab hbc

theorem le_total (a b : Pom) : (le a b || le b a) = true := by
  have hswap : b.order a = (a.order b).swap := Std.OrientedCmp.eq_swap
  simp only [le, hswap]
  cases a.order b <;> rfl

theorem pairwise_mergeSort (poms : List Pom) :
    (poms.mergeSort le).Pairwise fun a b => le a b = true :=
  @List.pairwise_mergeSort _ le (fun _ _ _ => le_trans) le_total poms

/-- Projects that compare as equal have like paths. -/
theorem alike_of_le {a b : Pom} (hab : le a b = true) (hba : le b a = true) :
    a.path.alike b.path = true := by
  have heq : a.order b = .eq := Std.OrientedCmp.isLE_antisymm hab hba
  rw [order, Ordering.then_eq_eq] at heq
  exact Path.alike_iff_order.2 heq.1

end Pom

namespace Workspace

/-! ### The innermost checkout -/

section

variable {cs : List Checkout} {dir : Path} {c : Checkout}

/-- What is found encloses the directory, and so does every other one that does enclose what is
found. -/
theorem encloses_of_enclosing? (hne : ∀ c ∈ cs, c.root.components ≠ [])
    (h : enclosing? cs dir = some c) :
    c ∈ cs ∧ c.root.Encloses dir ∧
      ∀ c' ∈ cs, c'.root.Encloses dir → c'.root.Encloses c.root := by
  obtain ⟨inner, up, outer, hsplit, hfind, hnone⟩ := List.findSome?_eq_some_iff.1 h
  have hup : up ∈ dir.ancestors := by
    rw [hsplit]
    exact List.mem_append_right _ List.mem_cons_self
  have halike : c.root.components = up.components := by
    simpa [Path.alike] using List.find?_some hfind
  refine ⟨List.mem_of_find?_eq_some hfind, ?_, fun c' hc' hencloses => ?_⟩
  · rw [Path.Encloses, halike]
    exact Path.encloses_of_mem_ancestors hup
  · obtain ⟨up', hup', hcomponents⟩ := Path.exists_mem_ancestors hencloses (hne c' hc')
    have houter : up' ∉ inner := fun hinner => by
      simpa [Path.alike, hcomponents] using List.find?_eq_none.1 (hnone up' hinner) c' hc'
    rw [Path.Encloses, halike, ← hcomponents]
    exact Path.encloses_of_not_mem_inner hsplit hup' houter

theorem exists_enclosing? (hne : ∀ c ∈ cs, c.root.components ≠ []) (hc : c ∈ cs)
    (hencloses : c.root.Encloses dir) : ∃ c', enclosing? cs dir = some c' := by
  refine Option.isSome_iff_exists.1 (Option.ne_none_iff_isSome.1 fun hnone => ?_)
  obtain ⟨up, hup, hcomponents⟩ := Path.exists_mem_ancestors hencloses (hne c hc)
  have := List.find?_eq_none.1 (List.findSome?_eq_none_iff.1 hnone up hup) c hc
  simp [Path.alike, hcomponents] at this

/-- The checkout found is the innermost one that encloses the directory. -/
theorem enclosing?_eq_some_iff (hdistinct : Distinct cs) (hne : ∀ c ∈ cs, c.root.components ≠ []) :
    enclosing? cs dir = some c ↔
      c ∈ cs ∧ c.root.Encloses dir ∧
        ∀ c' ∈ cs, c'.root.Encloses dir → c'.root.Encloses c.root := by
  refine ⟨encloses_of_enclosing? hne, fun ⟨hc, hencloses, hinnermost⟩ => ?_⟩
  obtain ⟨c', hc'⟩ := exists_enclosing? hne hc hencloses
  obtain ⟨hmem, hencloses', hinnermost'⟩ := encloses_of_enclosing? hne hc'
  rw [hc', hdistinct c hc c' hmem ((hinnermost' c hc hencloses).alike
    (hinnermost c' hmem hencloses'))]

end

/-! ### What was found -/

/-- Checkout roots at or below a root and projects at or below it, each by one path. -/
structure Proper (root : Path) (roots : List Path) (poms : List Pom) : Prop where
  ne_nil : root.components ≠ []
  roots_below : ∀ dir ∈ roots, root.Encloses dir
  roots_distinct : ∀ a ∈ roots ++ [root], ∀ b ∈ roots ++ [root], a.alike b = true → a = b
  poms_below : ∀ pom ∈ poms, root.Encloses pom.directory
  poms_distinct : ∀ a ∈ poms, ∀ b ∈ poms, a.directory.alike b.directory = true → a = b
  poms_alike : ∀ a ∈ poms, ∀ b ∈ poms,
    a.path.alike b.path = true → a.directory.alike b.directory = true
  poms_once : poms.Nodup

section

variable {root : Path} {roots : List Path} {poms : List Pom} (h : Proper root roots poms)

/-- The projects of one checkout, in order. -/
def owned (root : Path) (roots : List Path) (poms : List Pom) (c : Checkout) : List Pom :=
  (poms.filter fun p => ((enclosing? (ofFinds root roots poms).checkouts p.directory).getD
    (.outermost root)).same c).mergeSort Pom.le

theorem members_ofFinds (root : Path) (roots : List Path) (poms : List Pom) :
    (ofFinds root roots poms).members =
      (ofFinds root roots poms).checkouts.map fun c => (c, owned root roots poms c) := by
  simp only [owned, checkouts_ofFinds]
  rfl

/-- A checkout is made for its root directory. -/
theorem eq_checkoutAt {c : Checkout} (hc : c ∈ (ofFinds root roots poms).checkouts) :
    c = checkoutAt root c.root := by
  rw [checkouts_ofFinds] at hc
  obtain ⟨dir, -, rfl⟩ := List.mem_map.1 hc
  by_cases halike : dir.alike root = true
  · simp [checkoutAt, halike, Checkout.outermost]
  · simp [checkoutAt, halike, Checkout.nested]

theorem projectsOf_eq {c : Checkout} (hc : c ∈ (ofFinds root roots poms).checkouts) :
    (ofFinds root roots poms).projectsOf c = owned root roots poms c := by
  have hw := lawful_ofFinds root roots poms
  have hmem : (c, owned root roots poms c) ∈ (ofFinds root roots poms).members := by
    rw [members_ofFinds]
    exact List.mem_map.2 ⟨c, hc, rfl⟩
  cases hfind : (ofFinds root roots poms).members.find? fun e => c.same e.1 with
  | none =>
    have := List.find?_eq_none.1 hfind _ hmem
    simp [Checkout.same] at this
  | some e =>
    obtain ⟨c', hc', rfl⟩ := List.mem_map.1 (members_ofFinds root roots poms ▸
      List.mem_of_find?_eq_some hfind)
    have hsame : c.same c' = true := by simpa using List.find?_some hfind
    obtain rfl := eq_of_same hw hc hc' hsame
    rw [projectsOf, hfind]
    rfl

include h

/-- The order in which checkouts and projects are found does not matter. -/
theorem ofFinds_perm {roots' : List Path} {poms' : List Pom} (hroots : roots.Perm roots')
    (hpoms : poms.Perm poms') : ofFinds root roots poms = ofFinds root roots' poms' := by
  have hperm : (roots ++ [root]).Perm (roots' ++ [root]) := hroots.append_right _
  have hdistinct : ∀ a ∈ roots ++ [root], ∀ b ∈ roots ++ [root], a.order b = .eq → a = b :=
    fun a ha b hb heq => h.roots_distinct a ha b hb (Path.alike_iff_order.2 heq)
  have hset : Ordered.ofList Path.order (roots ++ [root]) =
      Ordered.ofList Path.order (roots' ++ [root]) := by
    refine (Ordered.increasing_ofList _ _).ext (Ordered.increasing_ofList _ _) fun dir => ?_
    rw [Ordered.mem_ofList_of_distinct hdistinct, Ordered.mem_ofList_of_distinct, hperm.mem_iff]
    intro a ha b hb
    exact hdistinct a (hperm.mem_iff.2 ha) b (hperm.mem_iff.2 hb)
  have hsorted : ∀ owns : Pom → Bool,
      (poms.filter owns).mergeSort Pom.le = (poms'.filter owns).mergeSort Pom.le := by
    intro owns
    have hpermed : ((poms.filter owns).mergeSort Pom.le).Perm
        ((poms'.filter owns).mergeSort Pom.le) :=
      (List.mergeSort_perm _ _).trans ((hpoms.filter owns).trans (List.mergeSort_perm _ _).symm)
    refine hpermed.eq_of_pairwise (fun a b ha hb hab hba => ?_) (Pom.pairwise_mergeSort _)
      (Pom.pairwise_mergeSort _)
    have ha' : a ∈ poms := (List.mem_filter.1 (List.mem_mergeSort.1 ha)).1
    have hb' : b ∈ poms :=
      hpoms.mem_iff.2 (List.mem_filter.1 (List.mem_mergeSort.1 hb)).1
    exact h.poms_distinct a ha' b hb' (h.poms_alike a ha' b hb' (Pom.alike_of_le hab hba))
  simp only [ofFinds, hset, hsorted]

/-- The roots of the checkouts are those found and the outermost one. -/
theorem exists_checkout_iff {dir : Path} :
    (∃ c ∈ (ofFinds root roots poms).checkouts, c.root = dir) ↔ dir = root ∨ dir ∈ roots := by
  have hdistinct : ∀ a ∈ roots ++ [root], ∀ b ∈ roots ++ [root], a.order b = .eq → a = b :=
    fun a ha b hb heq => h.roots_distinct a ha b hb (Path.alike_iff_order.2 heq)
  have hroot : ∀ dir ∈ roots ++ [root], (checkoutAt root dir).root = dir := by
    intro dir hdir
    rw [checkoutAt]
    split
    · next halike => exact (h.roots_distinct dir hdir root (by simp) halike).symm
    · rfl
  rw [checkouts_ofFinds]
  simp only [List.mem_map, Ordered.mem_ofList_of_distinct hdistinct]
  constructor
  · rintro ⟨c, ⟨dir', hdir', rfl⟩, rfl⟩
    rw [hroot dir' hdir']
    simpa [or_comm] using hdir'
  · intro hdir
    have hmem : dir ∈ roots ++ [root] := by simpa [or_comm] using hdir
    exact ⟨_, ⟨dir, hmem, rfl⟩, hroot dir hmem⟩

/-- All checkouts lie at or below the root. -/
theorem root_encloses {c : Checkout} (hc : c ∈ (ofFinds root roots poms).checkouts) :
    root.Encloses c.root := by
  rcases (exists_checkout_iff h).1 ⟨c, hc, rfl⟩ with heq | hmem
  · rw [heq]
    exact .refl _
  · exact h.roots_below _ hmem

theorem components_ne_nil {c : Checkout} (hc : c ∈ (ofFinds root roots poms).checkouts) :
    c.root.components ≠ [] := fun hnil =>
  h.ne_nil (List.prefix_nil.1 (hnil ▸ root_encloses h hc))

/-- The checkout found for a directory is the innermost one around it. -/
theorem containing?_eq_some_iff {dir : Path} {c : Checkout} :
    (ofFinds root roots poms).containing? dir = some c ↔
      c ∈ (ofFinds root roots poms).checkouts ∧ c.root.Encloses dir ∧
        ∀ c' ∈ (ofFinds root roots poms).checkouts,
          c'.root.Encloses dir → c'.root.Encloses c.root :=
  enclosing?_eq_some_iff (distinct_checkouts (lawful_ofFinds root roots poms))
    fun _ hc => components_ne_nil h hc

theorem exists_containing? {dir : Path} (hdir : root.Encloses dir) :
    ∃ c, (ofFinds root roots poms).containing? dir = some c := by
  have hw := lawful_ofFinds root roots poms
  exact exists_enclosing? (fun c hc => components_ne_nil h hc) hw.root hdir

/-! ### Where projects are listed -/

/-- A checkout holds the projects for which it is the innermost one. -/
theorem mem_owned_iff {c : Checkout} (hc : c ∈ (ofFinds root roots poms).checkouts) {pom : Pom} :
    pom ∈ owned root roots poms c ↔
      pom ∈ poms ∧ (ofFinds root roots poms).containing? pom.directory = some c := by
  rw [owned, List.mem_mergeSort, List.mem_filter]
  refine and_congr_right fun hpom => ?_
  obtain ⟨owner, howner⟩ := exists_containing? h (h.poms_below pom hpom)
  have hmem := ((containing?_eq_some_iff h).1 howner).1
  rw [← containing?, howner, Option.getD_some, Option.some.injEq]
  constructor
  · exact eq_of_same (lawful_ofFinds root roots poms) hmem hc
  · rintro rfl
    exact Path.alike_self _

theorem mem_projectsOf_iff {c : Checkout} (hc : c ∈ (ofFinds root roots poms).checkouts)
    {pom : Pom} :
    pom ∈ (ofFinds root roots poms).projectsOf c ↔
      pom ∈ poms ∧ (ofFinds root roots poms).containing? pom.directory = some c := by
  rw [projectsOf_eq hc, mem_owned_iff h hc]

/-- The projects of a checkout are in path order, each once. -/
theorem pairwise_projectsOf {c : Checkout} (hc : c ∈ (ofFinds root roots poms).checkouts) :
    ((ofFinds root roots poms).projectsOf c).Pairwise fun a b => a.path.order b.path = .lt := by
  rw [projectsOf_eq hc]
  have honce : (owned root roots poms c).Nodup :=
    (List.mergeSort_perm _ _).nodup_iff.2 (h.poms_once.filter _)
  have hsorted : (owned root roots poms c).Pairwise fun a b => Pom.le a b = true :=
    Pom.pairwise_mergeSort _
  refine (hsorted.and honce).imp_of_mem fun {a b} ha hb ⟨hle, hne⟩ => ?_
  have ha' := ((mem_owned_iff h hc).1 ha).1
  have hb' := ((mem_owned_iff h hc).1 hb).1
  rw [Pom.le, Pom.order] at hle
  cases hpath : a.path.order b.path with
  | lt => rfl
  | eq => exact absurd (h.poms_distinct a ha' b hb'
      (h.poms_alike a ha' b hb' (Path.alike_iff_order.2 hpath))) hne
  | gt => simp [hpath] at hle

/-- Every project found is listed, and none twice. -/
theorem projects_perm : (ofFinds root roots poms).projects.Perm poms := by
  have hw := lawful_ofFinds root roots poms
  have hprojects : (ofFinds root roots poms).projects =
      (ofFinds root roots poms).checkouts.flatMap (owned root roots poms) := by
    rw [projects, members_ofFinds, List.flatMap_map]
  have honce : (ofFinds root roots poms).projects.Nodup := by
    rw [hprojects]
    refine List.nodup_flatMap.2 ⟨fun c _ => (List.mergeSort_perm _ _).nodup_iff.2
      (h.poms_once.filter _), ?_⟩
    refine (hw.increasing.nodup _).imp_of_mem fun {c c'} hc hc' hne pom hpom hpom' => ?_
    have howner := ((mem_owned_iff h hc).1 hpom).2
    rw [((mem_owned_iff h hc').1 hpom').2] at howner
    exact hne (Option.some.inj howner).symm
  refine (List.perm_ext_iff_of_nodup honce h.poms_once).2 fun pom => ?_
  rw [hprojects, List.mem_flatMap]
  constructor
  · rintro ⟨c, hc, hpom⟩
    exact ((mem_owned_iff h hc).1 hpom).1
  · intro hpom
    obtain ⟨c, hc⟩ := exists_containing? h (h.poms_below pom hpom)
    have hmem := ((containing?_eq_some_iff h).1 hc).1
    exact ⟨c, hmem, (mem_owned_iff h hmem).2 ⟨hpom, hc⟩⟩

/-- A project is found by its directory. -/
theorem projectIn?_eq_some_iff {dir : Path} {pom : Pom} :
    (ofFinds root roots poms).projectIn? dir = some pom ↔
      pom ∈ poms ∧ pom.directory.alike dir = true := by
  have hperm := projects_perm h
  rw [projectIn?]
  constructor
  · intro hfind
    have halike : pom.directory.alike dir = true := by simpa using List.find?_some hfind
    exact ⟨hperm.mem_iff.1 (List.mem_of_find?_eq_some hfind), halike⟩
  · rintro ⟨hpom, halike⟩
    cases hfind : (ofFinds root roots poms).projects.find? (·.directory.alike dir) with
    | none =>
      exact absurd halike (List.find?_eq_none.1 hfind pom (hperm.mem_iff.2 hpom))
    | some pom' =>
      have hpom' := hperm.mem_iff.1 (List.mem_of_find?_eq_some hfind)
      have halike' : pom'.directory.alike dir = true := by simpa using List.find?_some hfind
      simp only [Path.alike, decide_eq_true_iff] at halike halike'
      rw [h.poms_distinct pom' hpom' pom hpom (by simp [Path.alike, halike, halike'])]

end

end Workspace

end Grove
