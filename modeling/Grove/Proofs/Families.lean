import Mathlib.Data.List.DropRight
import Grove.Proofs.Scopes

/-!
# Families of group ids

A group id gives its family by its last segment, what stands behind its last dot, and its parent
family by the segment before. So a group id that is longer by one segment has the family of the
shorter one for its parent, with one exception: where the shorter one ends with a dot or is empty, its
last segment is empty, and an empty segment names no parent. The name of a family is a group id of
the same family.

## What is proved

* `Family.segments_extended`, `Family.head?_segments` — the segments of a group id, last first.
* `Family.ofSegment_ofSegment`, `Family.head?_ofSegment_of_mem` — what a segment names.
* `Family.ofGroup_eq`, `Family.parentOfGroup?_extended` — both families by the last segment.
* `Family.parent_is_family` — how they go together, and what the scope of a family and its child
  families selects by them.
-/

namespace Grove

theorem Workspace.subset_appendRoot (w : Workspace) (cs : List Checkout) : cs ⊆ w.appendRoot cs := by
  rw [appendRoot]
  split
  · exact List.Subset.refl cs
  · exact List.subset_append_left cs _

namespace Family

/-! ### Segments -/

/-- What stands behind the last dot of a group id: all of it where it has none. -/
def lastSegment (group : String) : List Char :=
  group.toList.rtakeWhile (· != '.')

theorem bne_dot_of_notMem {cs : List Char} (h : '.' ∉ cs) : ∀ c ∈ cs, (c != '.') = true :=
  fun _ hc => bne_iff_ne.2 fun hdot => h (hdot ▸ hc)

theorem dot_notMem_lastSegment (group : String) : '.' ∉ lastSegment group := fun h =>
  absurd (List.mem_rtakeWhile_imp h) (by decide)

theorem lastSegment_of_notMem {group : String} (h : '.' ∉ group.toList) :
    lastSegment group = group.toList :=
  List.rtakeWhile_eq_self_iff.2 (bne_dot_of_notMem h)

theorem segments_of_notMem {group : String} (h : '.' ∉ group.toList) :
    segments group = [group.toList] := by
  rw [segments, List.splitOn_eq_singleton h, List.reverse_singleton]

/-- A segment behind a group id comes before the others. -/
theorem segments_extended (group : String) {s : String} (h : '.' ∉ s.toList) :
    segments (group ++ "." ++ s) = s.toList :: segments group := by
  have hdot : (group ++ "." ++ s).toList = group.toList ++ '.' :: s.toList := by simp
  rw [segments, hdot, List.splitOn_append_cons_self, List.splitOn_eq_singleton h,
    List.reverse_append, List.reverse_singleton, List.singleton_append, segments]

theorem head?_segments (group : String) : (segments group).head? = some (lastSegment group) := by
  by_cases h : '.' ∈ group.toList
  · obtain ⟨after, before, hreverse, hafter⟩ := List.eq_append_cons_of_mem (List.mem_reverse.2 h)
    have hgroup : group.toList = before.reverse ++ '.' :: after.reverse := by
      simpa using congrArg List.reverse hreverse
    have hlast : '.' ∉ after.reverse := fun hmem => hafter (List.mem_reverse.1 hmem)
    have hkept : lastSegment group = after.reverse := by
      rw [lastSegment, List.rtakeWhile, hreverse, List.takeWhile_append_of_pos
        (bne_dot_of_notMem hafter)]
      simp
    rw [segments, hkept, hgroup, List.splitOn_append_cons_self, List.splitOn_eq_singleton hlast]
    simp
  · rw [segments_of_notMem h, lastSegment_of_notMem h, List.head?_cons]

/-! ### Names -/

theorem ofSegment_eq (segment : List Char) : ofSegment segment =
    if segment.head? = some '-' then segment else segment.takeWhile (· != '-') := by
  unfold ofSegment
  split
  · rfl
  · next hlead =>
    refine (if_neg fun hhead => ?_).symm
    obtain ⟨rest, hrest⟩ := List.head?_eq_some_iff.1 hhead
    exact hlead rest hrest

theorem ofSegment_subset (segment : List Char) : ofSegment segment ⊆ segment := by
  rw [ofSegment_eq]
  split
  · exact List.Subset.refl _
  · exact (List.takeWhile_prefix _).subset

/-- There is a hyphen in a name only where the name starts with one. -/
theorem head?_ofSegment_of_mem {segment : List Char} (h : '-' ∈ ofSegment segment) :
    (ofSegment segment).head? = some '-' := by
  rw [ofSegment_eq] at h ⊢
  split at h
  · next hlead => rw [if_pos hlead, hlead]
  · exact absurd (List.all_eq_true.1 List.all_takeWhile _ h) (by decide)

/-- What a segment names is a segment that names the same. -/
theorem ofSegment_ofSegment (segment : List Char) :
    ofSegment (ofSegment segment) = ofSegment segment := by
  by_cases h : '-' ∈ ofSegment segment
  · rw [ofSegment_eq (ofSegment segment), if_pos (head?_ofSegment_of_mem h)]
  · have hkept : ∀ c ∈ ofSegment segment, (c != '-') = true := fun c hc =>
      bne_iff_ne.2 fun hhyphen => h (hhyphen ▸ hc)
    rw [ofSegment_eq (ofSegment segment), List.takeWhile_eq_self_iff.2 hkept, ite_self]

/-! ### Families -/

theorem ofGroup_eq (group : String) :
    ofGroup group = ⟨String.ofList (ofSegment (lastSegment group))⟩ := by
  rw [ofGroup, List.headD_eq_head?_getD, head?_segments, Option.getD_some]

theorem dot_notMem_name (group : String) : '.' ∉ (ofGroup group).name.toList := by
  rw [ofGroup_eq, String.toList_ofList]
  exact fun h => dot_notMem_lastSegment group (ofSegment_subset _ h)

theorem ofGroup_name (group : String) : ofGroup (ofGroup group).name = ofGroup group := by
  rw [ofGroup_eq (ofGroup group).name, lastSegment_of_notMem (dot_notMem_name group), ofGroup_eq,
    String.toList_ofList, ofSegment_ofSegment]

theorem parentOfGroup?_of_notMem {group : String} (h : '.' ∉ group.toList) :
    parentOfGroup? group = none := by
  rw [parentOfGroup?, segments_of_notMem h]

/-- One segment more makes the family of a group id the parent, unless the last segment of the group
id is empty. -/
theorem parentOfGroup?_extended (group : String) {s : String} (h : '.' ∉ s.toList) :
    parentOfGroup? (group ++ "." ++ s) =
      if lastSegment group = [] then none else some (ofGroup group) := by
  obtain ⟨rest, hrest⟩ := List.head?_eq_some_iff.1 (head?_segments group)
  rw [parentOfGroup?, segments_extended group h, hrest, ofGroup_eq]

/-- **The family of a group id is the parent of those one segment longer.** The name of a family is a
group id of the family; it has no dot, and a hyphen only if it starts with one. A group id without a
dot has no parent family. One that is longer than another by a segment has the family of the other for
its parent, or none where the last segment of the other is empty. So unless it is, the scope of the
family and its child families selects every checkout that holds a project of the longer group id. -/
theorem parent_is_family (group : String) :
    ofGroup (ofGroup group).name = ofGroup group ∧
    '.' ∉ (ofGroup group).name.toList ∧
    ('-' ∈ (ofGroup group).name.toList → (ofGroup group).name.toList.head? = some '-') ∧
    ('.' ∉ group.toList → parentOfGroup? group = none) ∧
    ∀ s : String, '.' ∉ s.toList →
      (parentOfGroup? (group ++ "." ++ s) =
        if lastSegment group = [] then none else some (ofGroup group)) ∧
      (lastSegment group ≠ [] → ∀ (w : Workspace) (c : Checkout) (poms : List Pom) (pom : Pom),
        (c, poms) ∈ w.members → pom ∈ poms → pom.coordinates.group = group ++ "." ++ s →
          ∀ asking includeRoot asked,
            c ∈ Scope.familyOrChildFamily.select w asking includeRoot (ofGroup group) asked) := by
  refine ⟨ofGroup_name group, dot_notMem_name group, fun h => ?_, parentOfGroup?_of_notMem,
    fun s hs => ⟨parentOfGroup?_extended group hs, ?_⟩⟩
  · rw [ofGroup_eq, String.toList_ofList] at h ⊢
    exact head?_ofSegment_of_mem h
  · intro hlast w c poms pom hmember hpom hgroup asking includeRoot asked
    have hparent : parentOfGroup? pom.coordinates.group = some (ofGroup group) := by
      rw [hgroup, parentOfGroup?_extended group hs, if_neg hlast]
    have hfound : c ∈ w.inFamilyOrChild (ofGroup group) := by
      refine List.mem_map.2 ⟨(c, poms), List.mem_filter.2 ⟨hmember, ?_⟩, rfl⟩
      exact List.any_eq_true.2 ⟨pom, hpom, by simp [hparent]⟩
    cases includeRoot with
    | false => exact hfound
    | true => exact w.subset_appendRoot _ hfound

/-- The extensions of a family whose group id starts its last segment with a hyphen are found beside
it. -/
theorem parent_is_family_extensions :
    let outer := Checkout.outermost ⟨["ws"]⟩
    let lib := Checkout.nested ⟨["ws", "lib"]⟩ outer.root
    let pom : Pom :=
      ⟨lib.root.child "pom.xml", ⟨"org.example.-odd-one.extensions", "lib", "1.0.0"⟩, "jar"⟩
    let w := Workspace.ofFinds outer.root [lib.root] [pom]
    parentOfGroup? "org.example.-odd-one.extensions" = some ⟨"-odd-one"⟩ ∧
      lib ∈ Scope.familyOrChildFamily.select w outer false ⟨"-odd-one"⟩ "org.example" := by
  intro outer lib pom w
  have hown : ofGroup "org.example.-odd-one" = ⟨"-odd-one"⟩ := by decide +kernel
  have hlast : lastSegment "org.example.-odd-one" ≠ [] := by decide +kernel
  obtain ⟨-, -, -, -, hextended⟩ := parent_is_family "org.example.-odd-one"
  obtain ⟨hparent, hselected⟩ := hextended "extensions" (by decide)
  rw [if_neg hlast, hown] at hparent
  have hmember : (lib, [pom]) ∈ w.members := by decide +kernel
  have hlib := hselected hlast w lib [pom] pom hmember List.mem_cons_self (by decide +kernel) outer
    false "org.example"
  exact ⟨hparent, hown ▸ hlib⟩

/-- Behind a dot at its end a group id has a family without a name, which is no parent. -/
example : ofGroup "com.telenav." = ⟨""⟩ ∧ parentOfGroup? "com.telenav..kivakit" = none := by
  decide +kernel

end Family

end Grove
