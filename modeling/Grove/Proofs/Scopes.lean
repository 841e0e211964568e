import Grove.Proofs.Selections

/-!
# What scopes select

Every scope but the narrowest selects checkouts by the projects that they hold. What a project has
to be for that is a condition (`Scope.covers`), which is weaker the wider the scope. So wider scopes
select more, and whatever they select is told by the condition: in path order, each checkout once,
with the outermost one behind the others where it is asked for and not among them.

## What is proved

* `Workspace.mem_checkoutsWhere_iff` — the checkouts that hold a project of some kind.
* `Workspace.appendRoot_eq`, `Workspace.nodup_appendRoot` — adding the outermost checkout.
* `Scope.select_eq` — the selection of a scope by its condition.
* `Scope.selects_widen` — what scopes select, and how the selections lie in one another.
-/

namespace Grove

namespace Workspace

variable {w : Workspace}

/-! ### Checkouts by their projects -/

/-- A checkout of a workspace is there once, with its projects. -/
theorem projectsOf_of_mem (hw : w.Lawful) {c : Checkout} {poms : List Pom}
    (h : (c, poms) ∈ w.members) : w.projectsOf c = poms := by
  have hkeys : (w.members.map (·.1)).Nodup := hw.increasing.nodup
  have heq : w.projectsOf c = ((w.members.find? fun member => c.same member.1).map (·.2)).getD [] :=
    rfl
  rw [heq]
  cases hfind : w.members.find? fun member => c.same member.1 with
  | none =>
    have := List.find?_eq_none.1 hfind _ h
    simp [Checkout.same, Path.alike_self] at this
  | some member =>
    have hmem := List.mem_of_find?_eq_some hfind
    have hsame : c.same member.1 := by simpa using List.find?_some hfind
    have hkey : member.1 = c := (w.eq_of_same hw (List.mem_map.2 ⟨_, h, rfl⟩)
      (List.mem_map.2 ⟨_, hmem, rfl⟩) hsame).symm
    have hmember : member = (c, poms) := List.inj_on_of_nodup_map hkeys hmem h hkey
    rw [hmember]
    rfl

/-- The checkouts that hold a project of some kind. -/
theorem mem_checkoutsWhere_iff (hw : w.Lawful) {p : Pom → Bool} {c : Checkout} :
    c ∈ w.checkoutsWhere p ↔ c ∈ w.checkouts ∧ ∃ pom ∈ w.projectsOf c, p pom := by
  simp only [checkoutsWhere, checkouts, List.mem_map, List.mem_filter, List.any_eq_true,
    Prod.exists, exists_and_right, exists_eq_right]
  constructor
  · rintro ⟨poms, hmem, hpom⟩
    exact ⟨⟨poms, hmem⟩, by rwa [w.projectsOf_of_mem hw hmem]⟩
  · rintro ⟨⟨poms, hmem⟩, hpom⟩
    rw [w.projectsOf_of_mem hw hmem] at hpom
    exact ⟨poms, hmem, hpom⟩

theorem checkoutsWhere_subset {p q : Pom → Bool} (h : ∀ pom, p pom → q pom) :
    w.checkoutsWhere p ⊆ w.checkoutsWhere q := by
  refine List.map_subset _ fun member hmember => ?_
  simp only [List.mem_filter, List.any_eq_true] at hmember ⊢
  obtain ⟨hmem, pom, hpom, hp⟩ := hmember
  exact ⟨hmem, pom, hpom, h pom hp⟩

theorem withProjects_eq (w : Workspace) : w.withProjects = w.checkoutsWhere fun _ => true := by
  simp only [withProjects, checkoutsWhere]
  refine congrArg _ (List.filter_congr fun member _ => ?_)
  cases member.2 <;> rfl

/-! ### Adding the outermost checkout -/

section

variable {cs : List Checkout}

theorem appendRoot_eq (hw : w.Lawful) (hcs : ∀ c ∈ cs, c ∈ w.checkouts) :
    w.appendRoot cs = if w.root ∈ cs then cs else cs ++ [w.root] := by
  simp only [appendRoot, isIn_iff (w.distinct_checkouts hw) hw.root hcs]

theorem mem_appendRoot_iff (hw : w.Lawful) (hcs : ∀ c ∈ cs, c ∈ w.checkouts) {c : Checkout} :
    c ∈ w.appendRoot cs ↔ c ∈ cs ∨ c = w.root := by
  refine ⟨mem_of_mem_appendRoot, fun h => ?_⟩
  rw [w.appendRoot_eq hw hcs]
  split
  · next hroot => exact h.elim id fun heq => heq ▸ hroot
  · simpa using h

/-- Checkouts of a workspace without repetition have roots that are not alike. -/
theorem apart_of_nodup (hw : w.Lawful) (hcs : ∀ c ∈ cs, c ∈ w.checkouts) (hnodup : cs.Nodup) :
    cs.Pairwise fun a b => ¬a.same b := by
  refine hnodup.imp_of_mem fun {a b} ha hb hne hsame => hne ?_
  exact w.eq_of_same hw (hcs a ha) (hcs b hb) hsame

theorem nodup_appendRoot (hw : w.Lawful) (hcs : ∀ c ∈ cs, c ∈ w.checkouts) (hnodup : cs.Nodup) :
    (w.appendRoot cs).Nodup := by
  rw [w.appendRoot_eq hw hcs]
  split
  · exact hnodup
  · next hroot => simpa using hnodup.concat hroot

end

end Workspace

namespace Scope

variable {w : Workspace}

/-- The condition on a project by which a scope selects the checkout of it. -/
def covers (scope : Scope) (own : Family) (group : String) (pom : Pom) : Bool :=
  match scope with
  | justThis => false
  | sameGroupId => pom.coordinates.group = group
  | family => pom.family = own
  | familyOrChildFamily =>
    pom.family = own || Family.parentOfGroup? pom.coordinates.group = some own
  | all => true

variable {asking : Checkout} {includeRoot : Bool} {own : Family} {group : String}

/-- A scope other than the narrowest selects by its condition. -/
theorem select_eq {scope : Scope} (h : scope ≠ justThis) :
    scope.select w asking includeRoot own group =
      if includeRoot then w.appendRoot (w.checkoutsWhere (scope.covers own group))
      else w.checkoutsWhere (scope.covers own group) := by
  cases scope with
  | justThis => exact absurd rfl h
  | sameGroupId | family | familyOrChildFamily => rfl
  | all =>
    rw [select, w.withProjects_eq]
    rfl

theorem nodup_select (hw : w.Lawful) (scope : Scope) :
    (scope.select w asking includeRoot own group).Nodup := by
  by_cases h : scope = justThis
  · rw [h]
    exact List.nodup_singleton asking
  · have hsublist := w.checkoutsWhere_sublist (scope.covers own group)
    have hnodup := hw.increasing.nodup.sublist hsublist
    rw [select_eq h]
    cases includeRoot with
    | false => exact hnodup
    | true => exact w.nodup_appendRoot hw (fun _ hc => hsublist.subset hc) hnodup

/-- A scope with a weaker condition selects more. -/
theorem select_subset (hw : w.Lawful) {narrow wide : Scope} (hnarrow : narrow ≠ justThis)
    (hwide : wide ≠ justThis)
    (h : ∀ pom, narrow.covers own group pom → wide.covers own group pom) :
    narrow.select w asking includeRoot own group ⊆ wide.select w asking includeRoot own group := by
  have hheld := w.checkoutsWhere_subset h
  rw [select_eq hnarrow, select_eq hwide]
  cases includeRoot with
  | false => exact hheld
  | true =>
    intro c hc
    rw [if_pos rfl, w.mem_appendRoot_iff hw fun _ => w.mem_checkouts_of_mem_checkoutsWhere] at hc ⊢
    exact hc.imp_left fun hc => hheld hc

/-- **Wider scopes select more.** The narrowest scope selects the checkout that asks. Every other one
selects checkouts of the workspace, those that hold a project of the kind that it covers, in path
order; where the outermost checkout is asked for and not among them, it is added at the end. No scope
selects two checkouts with like roots. Seen from a group id and its own family, the scopes select the
more the wider they are. -/
theorem selects_widen (root : Path) (roots : List Path) (poms : List Pom) (asking : Checkout)
    (group : String) :
    let w := Workspace.ofFinds root roots poms
    let own := Family.ofGroup group
    let selected (scope : Scope) (includeRoot : Bool) : List Checkout :=
      scope.select w asking includeRoot own group
    (∀ includeRoot, selected justThis includeRoot = [asking]) ∧
    (∀ scope includeRoot, (selected scope includeRoot).Pairwise fun a b => ¬a.same b) ∧
    (∀ scope, scope ≠ justThis →
      (∀ includeRoot, ∀ c ∈ selected scope includeRoot, c ∈ w.checkouts) ∧
      (∀ c, c ∈ selected scope false ↔
        c ∈ w.checkouts ∧ ∃ pom ∈ w.projectsOf c, scope.covers own group pom) ∧
      Ordered.Increasing Checkout.order (selected scope false) ∧
      selected scope true =
        if w.root ∈ selected scope false then selected scope false
        else selected scope false ++ [w.root]) ∧
    ∀ includeRoot, selected sameGroupId includeRoot ⊆ selected family includeRoot ∧
      selected family includeRoot ⊆ selected familyOrChildFamily includeRoot ∧
      selected familyOrChildFamily includeRoot ⊆ selected all includeRoot := by
  intro w own selected
  have hw : w.Lawful := Workspace.lawful_ofFinds root roots poms
  have hnarrowest : ∀ includeRoot, selected justThis includeRoot = [asking] := fun _ => rfl
  have hwithin : ∀ scope, scope ≠ justThis → ∀ includeRoot, ∀ c ∈ selected scope includeRoot,
      c ∈ w.checkouts := fun scope h includeRoot c hc => w.mem_checkouts_of_mem_wide hw h hc
  refine ⟨hnarrowest, fun scope includeRoot => ?_, fun scope h => ?_, fun includeRoot => ?_⟩
  · by_cases h : scope = justThis
    · rw [h, hnarrowest]
      exact List.pairwise_singleton _ _
    · exact w.apart_of_nodup hw (hwithin scope h includeRoot) (nodup_select hw scope)
  · have hplain : selected scope false = w.checkoutsWhere (scope.covers own group) := select_eq h
    have hroot : selected scope true = w.appendRoot (w.checkoutsWhere (scope.covers own group)) :=
      select_eq h
    refine ⟨hwithin scope h, fun c => ?_, ?_, ?_⟩
    · rw [hplain, w.mem_checkoutsWhere_iff hw]
    · rw [hplain]
      exact w.increasing_checkoutsWhere hw _
    · rw [hroot, hplain]
      exact w.appendRoot_eq hw fun _ => w.mem_checkouts_of_mem_checkoutsWhere
  · refine ⟨select_subset hw (by decide) (by decide) fun pom h => ?_,
      select_subset hw (by decide) (by decide) fun pom h => ?_,
      select_subset hw (by decide) (by decide) fun _ _ => rfl⟩
    · have hgroup : pom.coordinates.group = group := by simpa [covers] using h
      simp [covers, Pom.family, hgroup, own]
    · simp only [covers, decide_eq_true_eq, Bool.or_eq_true] at h ⊢
      exact .inl h

/-- A family with a child family of it beside: the wider scope selects the checkouts of both, and the
outermost checkout behind them. -/
theorem selects_widen_to_child :
    let outer := Checkout.outermost ⟨["ws"]⟩
    let kivakit := Checkout.nested ⟨["ws", "kivakit"]⟩ outer.root
    let extensions := Checkout.nested ⟨["ws", "extensions"]⟩ outer.root
    let group := "com.telenav.kivakit"
    let own := Family.ofGroup group
    let poms : List Pom := [⟨kivakit.root.child "pom.xml", ⟨group, "core", "1.0.0"⟩, "jar"⟩,
      ⟨extensions.root.child "pom.xml", ⟨"com.telenav.kivakit.extensions", "ext", "1.0.0"⟩, "jar"⟩]
    let w := Workspace.ofFinds outer.root [kivakit.root, extensions.root] poms
    family.select w kivakit true own group = [kivakit, outer] ∧
      familyOrChildFamily.select w kivakit true own group = [extensions, kivakit, outer] := by
  intro outer kivakit extensions group own poms w
  obtain ⟨-, -, hscopes, -⟩ :=
    selects_widen outer.root [kivakit.root, extensions.root] poms kivakit group
  obtain ⟨-, -, -, hfamily⟩ := hscopes family (by decide)
  obtain ⟨-, -, -, hchild⟩ := hscopes familyOrChildFamily (by decide)
  exact ⟨hfamily.trans (by decide +kernel), hchild.trans (by decide +kernel)⟩

end Scope

end Grove
