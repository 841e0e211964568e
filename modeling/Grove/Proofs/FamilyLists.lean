import Grove.Proofs.Scopes
import Grove.Statistics.Family
import Grove.Workflow.Merge

/-!
# Checkouts of several families

Families that are listed stand for the checkouts that hold a project of one of them. These are
gathered family by family, each checkout where it comes across first, and the outermost one goes to
the end where it is asked for and has not come across. Merges and statistics gather in this way, and
so a merge does for the project's own family alone, for which it keeps what the scope selected.

## What is proved

* `Workspace.inFamilies_eq` — gathering, family by family, finds what comes across first.
* `Workspace.gathered_own` — one family gathered is what the family scope selects for it.
* `Workspace.mem_gathered_iff`, `Workspace.nodup_gathered` — what is gathered, and that each is once.
* `Workspace.applyFamilies_select`, `Workspace.requireInFamilies_eq` — merges and statistics gather.
* `Workspace.families_gathered` — what becomes of families in a merge and in statistics.
-/

namespace Grove

/-! ### What comes across first -/

theorem firsts_congr {seen seen' cs : List Checkout} (h : ∀ c, c ∈ seen ↔ c ∈ seen') :
    firsts seen cs = firsts seen' cs := by
  induction cs generalizing seen seen' with
  | nil => rfl
  | cons c cs ih =>
    have hnext : firsts (c :: seen) cs = firsts (c :: seen') cs :=
      ih fun c' => by simp only [List.mem_cons, h]
    simp only [firsts, h, ih h, hnext]

/-- In a list without repetition everything comes across for the first time. -/
theorem firsts_of_nodup {seen cs : List Checkout} (hcs : cs.Nodup) (hseen : ∀ c ∈ cs, c ∉ seen) :
    firsts seen cs = cs := by
  induction cs generalizing seen with
  | nil => rfl
  | cons c cs ih =>
    obtain ⟨hc, hcs⟩ := List.nodup_cons.1 hcs
    rw [firsts, if_neg (hseen c List.mem_cons_self), ih hcs]
    intro c' hc'
    rw [List.mem_cons, not_or]
    exact ⟨fun heq => hc (heq ▸ hc'), hseen c' (List.mem_cons_of_mem _ hc')⟩

namespace Workspace

variable {w : Workspace}

/-- Adding checkouts that are not there yet adds those that come across for the first time. -/
theorem foldl_unless_isIn (hw : w.Lawful) {cs found : List Checkout}
    (hcs : ∀ c ∈ cs, c ∈ w.checkouts) (hfound : ∀ c ∈ found, c ∈ w.checkouts) :
    cs.foldl (fun found c => if c.isIn found then found else found ++ [c]) found =
      found ++ firsts found cs := by
  induction cs generalizing found with
  | nil => simp [firsts]
  | cons c cs ih =>
    obtain ⟨hc, hcs⟩ := List.forall_mem_cons.1 hcs
    rw [List.foldl_cons, firsts]
    simp only [isIn_iff (w.distinct_checkouts hw) hc hfound]
    by_cases hmem : c ∈ found
    · simp only [if_pos hmem]
      exact ih hcs hfound
    · have hnext : ∀ c' ∈ found ++ [c], c' ∈ w.checkouts := by
        intro c' hc'
        rcases List.mem_append.1 hc' with hc' | hc'
        · exact hfound c' hc'
        · exact List.mem_singleton.1 hc' ▸ hc
      have hseen : firsts (found ++ [c]) cs = firsts (c :: found) cs :=
        firsts_congr fun c' => by simp [or_comm]
      simp only [if_neg hmem]
      rw [ih hcs hnext, hseen]
      simp

/-! ### Gathering families -/

/-- The checkouts of some families, family by family, each where it comes across first; the outermost
one is put at the end where it is asked for and has not come across. -/
def gathered (w : Workspace) (includeRoot : Bool) (families : List Family) : List Checkout :=
  let found := firsts [] (families.flatMap w.inFamily)
  if includeRoot = true ∧ w.root ∉ found then found ++ [w.root] else found

variable {includeRoot : Bool} {families : List Family}

theorem mem_firsts_families_iff (hw : w.Lawful) {c : Checkout} :
    c ∈ firsts [] (families.flatMap w.inFamily) ↔
      c ∈ w.checkouts ∧ ∃ pom ∈ w.projectsOf c, pom.family ∈ families := by
  simp only [mem_firsts, List.mem_flatMap, inFamily, w.mem_checkoutsWhere_iff hw,
    decide_eq_true_eq, List.not_mem_nil, not_false_eq_true, and_true]
  constructor
  · rintro ⟨family, hfamily, hc, pom, hpom, rfl⟩
    exact ⟨hc, pom, hpom, hfamily⟩
  · rintro ⟨hc, pom, hpom, hfamily⟩
    exact ⟨_, hfamily, hc, pom, hpom, rfl⟩

/-- Gathering, family by family, finds the checkouts that come across first. -/
theorem inFamilies_eq (hw : w.Lawful) :
    w.inFamilies families = firsts [] (families.flatMap w.inFamily) := by
  have hfamilies : ∀ c ∈ families.flatMap w.inFamily, c ∈ w.checkouts := by
    intro c hc
    obtain ⟨family, -, hc⟩ := List.mem_flatMap.1 hc
    exact mem_checkouts_of_mem_checkoutsWhere hc
  rw [inFamilies, ← List.foldl_flatMap, w.foldl_unless_isIn hw hfamilies (by simp), List.nil_append]

theorem gathered_eq (hw : w.Lawful) : w.gathered includeRoot families =
    if includeRoot then w.appendRoot (w.inFamilies families) else w.inFamilies families := by
  rw [w.appendRoot_eq hw fun _ => mem_checkouts_of_mem_inFamilies, w.inFamilies_eq hw, gathered]
  cases includeRoot <;> by_cases hroot : w.root ∈ firsts [] (families.flatMap w.inFamily) <;>
    simp [hroot]

theorem mem_gathered_iff (hw : w.Lawful) {c : Checkout} : c ∈ w.gathered includeRoot families ↔
    (c ∈ w.checkouts ∧ ∃ pom ∈ w.projectsOf c, pom.family ∈ families) ∨
      includeRoot = true ∧ c = w.root := by
  rw [w.gathered_eq hw, ← w.mem_firsts_families_iff hw, ← w.inFamilies_eq hw]
  cases includeRoot with
  | false => simp
  | true => simp [w.mem_appendRoot_iff hw fun _ => mem_checkouts_of_mem_inFamilies]

theorem nodup_gathered (hw : w.Lawful) : (w.gathered includeRoot families).Nodup := by
  have hnodup : (w.inFamilies families).Nodup := by
    rw [w.inFamilies_eq hw]
    exact nodup_firsts _ _
  rw [w.gathered_eq hw]
  cases includeRoot with
  | false => exact hnodup
  | true => exact w.nodup_appendRoot hw (fun _ => mem_checkouts_of_mem_inFamilies) hnodup

/-- One family gathered is what the family scope selects for it. -/
theorem gathered_own (hw : w.Lawful) (asking : Checkout) (own : Family) (group : String) :
    w.gathered includeRoot [own] = Scope.family.select w asking includeRoot own group := by
  have hown : w.inFamilies [own] = w.inFamily own := by
    rw [w.inFamilies_eq hw, List.flatMap_singleton]
    exact firsts_of_nodup (w.increasing_checkoutsWhere hw _).nodup (by simp)
  rw [w.gathered_eq hw, hown]
  rfl

/-- In a merge the own family needs no case of its own: what the scope selected is what is gathered. -/
theorem applyFamilies_select (hw : w.Lawful) (scope : Scope) (asking : Checkout) (own : Family)
    (group : String) :
    applyFamilies w scope includeRoot own families (scope.select w asking includeRoot own group) =
      if families = [] then .ok (scope.select w asking includeRoot own group)
      else if scope ≠ .family then
        .error (.conflictingOptions
          ("families can only be used with scope 'family', not '" ++ scope.name ++ "'"))
      else .ok (w.gathered includeRoot families) := by
  rw [applyFamilies]
  refine if_ctx_congr Iff.rfl (fun _ => rfl) fun _ => if_ctx_congr Iff.rfl (fun _ => rfl) fun h => ?_
  obtain rfl := not_not.1 h
  by_cases hown : families = [own]
  · rw [if_pos hown, hown, w.gathered_own hw asking own group]
  · rw [if_neg hown, w.gathered_eq hw]

/-- Statistics gather in the same way, and refuse families for which there is nothing. -/
theorem requireInFamilies_eq (hw : w.Lawful) :
    w.requireInFamilies families =
      if w.gathered false families = [] then
        .error (.noCheckouts (", ".intercalate (families.map (·.name))))
      else .ok (w.gathered false families) := by
  have hfound : w.gathered false families = w.inFamilies families := w.gathered_eq hw
  rw [requireInFamilies, hfound]
  cases w.inFamilies families <;> rfl

theorem mem_checkouts_of_mem_gathered (hw : w.Lawful) {c : Checkout}
    (h : c ∈ w.gathered includeRoot families) : c ∈ w.checkouts := by
  rcases (w.mem_gathered_iff hw).1 h with ⟨hc, -⟩ | ⟨-, rfl⟩
  · exact hc
  · exact hw.root

/-- **Families stand for the checkouts that hold a project of one.** In a merge, families are refused
exactly where the scope is another than that of families. Otherwise they are replaced by what is
gathered for them: each checkout once, those that hold a project of one of the families and the
outermost one where it is asked for. That is so for the project's own family too, for which the
checkouts of the scope are kept and nothing is gathered. Statistics gather the same list without the
outermost checkout, and refuse families exactly where the list is empty. -/
theorem families_gathered (root : Path) (roots : List Path) (poms : List Pom) (scope : Scope)
    (asking : Checkout) (includeRoot : Bool) (own : Family) (group : String)
    (families : List Family) :
    let w := ofFinds root roots poms
    let checkouts := scope.select w asking includeRoot own group
    let result := applyFamilies w scope includeRoot own families checkouts
    ((∃ e, result = .error e) ↔ families ≠ [] ∧ scope ≠ .family) ∧
    (families = [] → result = .ok checkouts) ∧
    (families ≠ [] → scope = .family → result = .ok (w.gathered includeRoot families)) ∧
    ((w.gathered includeRoot families).Pairwise fun a b => ¬a.same b) ∧
    (∀ c, c ∈ w.gathered includeRoot families ↔
      (c ∈ w.checkouts ∧ ∃ pom ∈ w.projectsOf c, pom.family ∈ families) ∨
        includeRoot = true ∧ c = w.root) ∧
    (if includeRoot then w.appendRoot (w.inFamilies families) else w.inFamilies families) =
      w.gathered includeRoot families ∧
    w.requireInFamilies families =
      if w.gathered false families = [] then
        .error (.noCheckouts (", ".intercalate (families.map (·.name))))
      else .ok (w.gathered false families) := by
  intro w checkouts result
  have hw : w.Lawful := lawful_ofFinds root roots poms
  have hresult : result = if families = [] then .ok checkouts else if scope ≠ .family then _
      else .ok (w.gathered includeRoot families) := w.applyFamilies_select hw scope asking own group
  have hempty : families = [] → result = .ok checkouts := fun h => hresult.trans (if_pos h)
  have hgathered : families ≠ [] → scope = .family →
      result = .ok (w.gathered includeRoot families) := by
    intro hne hscope
    rw [hresult, if_neg hne, if_neg (not_not.2 hscope)]
  refine ⟨⟨?_, fun ⟨hne, hscope⟩ => ?_⟩, hempty, hgathered,
    w.apart_of_nodup hw (fun _ => mem_checkouts_of_mem_gathered hw) (w.nodup_gathered hw),
    fun c => w.mem_gathered_iff hw, (w.gathered_eq hw).symm, w.requireInFamilies_eq hw⟩
  · rintro ⟨e, he⟩
    by_cases hne : families = []
    · cases he.symm.trans (hempty hne)
    · exact ⟨hne, fun hscope => by cases he.symm.trans (hgathered hne hscope)⟩
  · exact ⟨_, hresult.trans ((if_neg hne).trans (if_pos hscope))⟩

/-- The checkouts of two families, one of which has a project in the outermost one: they come family by
family, and the outermost one is there as it comes across and not again at the end. -/
theorem families_gathered_of_two :
    let outer := Checkout.outermost ⟨["ws"]⟩
    let lib := Checkout.nested ⟨["ws", "lib"]⟩ outer.root
    let core := Checkout.nested ⟨["ws", "core"]⟩ outer.root
    let project (c : Checkout) (folder group : String) : Pom :=
      ⟨(c.root.child folder).child "pom.xml", ⟨group, folder, "1.0.0"⟩, "jar"⟩
    let w := ofFinds outer.root [lib.root, core.root]
      [project lib "kivakit" "com.telenav.kivakit", project core "mesakit" "com.telenav.mesakit",
        project outer "bom" "com.telenav.mesakit"]
    let own : Family := ⟨"cactus"⟩
    applyFamilies w .family true own [⟨"kivakit"⟩, ⟨"mesakit"⟩]
      (Scope.family.select w lib true own "com.telenav.cactus") = .ok [lib, outer, core] := by
  intro outer lib core project w own
  obtain ⟨-, -, hgathered, -⟩ := families_gathered outer.root [lib.root, core.root]
    [project lib "kivakit" "com.telenav.kivakit", project core "mesakit" "com.telenav.mesakit",
      project outer "bom" "com.telenav.mesakit"]
    .family lib true own "com.telenav.cactus" [⟨"kivakit"⟩, ⟨"mesakit"⟩]
  exact (hgathered (by decide) rfl).trans (by decide +kernel)

end Workspace

end Grove
