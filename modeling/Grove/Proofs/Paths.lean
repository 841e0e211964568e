import Grove.Files.Node

/-!
# Paths of entries

An entry of a directory has a proper name: one that stands for itself in a path. Its path has one
component more than that of the directory. The paths that enclose a path are told by their
components: they are the prefixes, the innermost first.

## What is proved

* `components_child`, `components_descend` — the components of what lies in a directory.
* `encloses_of_mem_ancestors`, `exists_mem_ancestors` — the ancestors of a path are those that
  enclose it.
* `encloses_of_find?_ancestors` — of the ancestors that satisfy a condition the innermost is found.
-/

namespace Grove.Path

/-! ### Names -/

/-- Whether a text stands for one entry of a directory. -/
def isName (s : String) : Bool :=
  !isNoise s && s != ".." && !s.toList.contains '/'

theorem slash_notMem_of_isName {name : String} (h : isName name = true) : '/' ∉ name.toList :=
  fun hmem => by simp [isName, hmem] at h

theorem ofString_of_isName {name : String} (h : isName name = true) : ofString name = ⟨[name]⟩ := by
  have hslash : ∀ c ∈ name.toList, (c == '/') = false := by
    intro c hc
    refine beq_eq_false_iff_ne.2 ?_
    rintro rfl
    exact slash_notMem_of_isName h hc
  rw [ofString, Text.splitString, List.splitOn_eq_splitOnP, List.splitOnP_eq_singleton hslash]
  simp

theorem ofPiece?_of_isName {name : String} (h : isName name = true) :
    Component.ofPiece? name = some (.name name) := by
  simp only [isName, isNoise, Bool.and_eq_true, Bool.not_eq_true', Bool.or_eq_false_iff,
    decide_eq_false_iff_not, bne_iff_ne] at h
  rw [Component.ofPiece?, if_neg (by simp [h.1.1.1, h.1.1.2]), if_neg h.1.2]

theorem ne_empty_of_isName {name : String} (h : isName name = true) : name ≠ "" := by
  rintro rfl
  simp [isName, isNoise] at h

/-- A proper name at the end of a path adds one component, where the path is not the empty text. -/
theorem components_concat {pieces : List String} {name : String} (h : isName name = true)
    (hpieces : pieces ≠ [""]) :
    components ⟨pieces ++ [name]⟩ = components ⟨pieces⟩ ++ [.name name] := by
  cases pieces with
  | nil =>
    have hdot : name ≠ "." := by
      rintro rfl
      simp [isName, isNoise] at h
    simp [components, leading?, ne_empty_of_isName h, hdot, ofPiece?_of_isName h]
  | cons first rest =>
    have hlead : leading? first (rest ++ [name]) = leading? first rest := by
      by_cases hfirst : first = ""
      · have hrest : rest ≠ [] := by
          rintro rfl
          exact hpieces (by rw [hfirst])
        simp [leading?, hfirst, hrest]
      · simp [leading?, hfirst]
    simp [components, hlead, ofPiece?_of_isName h]

/-- The components of an entry are those of its directory and its name. -/
theorem components_child (p : Path) {name : String} (h : isName name = true) :
    (p.child name).components = p.components ++ [.name name] := by
  obtain ⟨pieces⟩ := p
  rw [child, ofString_of_isName h, join]
  rcases List.eq_nil_or_concat pieces with rfl | ⟨init, last, rfl⟩
  · simpa using @components_concat [] name h (by simp)
  · by_cases hlast : last = ""
    · -- the text ends in a slash, which the name follows
      subst hlast
      simp only [List.concat_eq_append, List.getLast?_append, List.getLast?_singleton,
        Option.some_or, List.dropLast_concat]
      cases init with
      | nil =>
        simpa [components, leading?] using @components_concat [] name h (by simp)
      | cons first rest =>
        have hlead : leading? first (rest ++ [""]) = leading? first (rest ++ [name]) := by
          simp [leading?]
        have hname : [name].filterMap Component.ofPiece? = [.name name] := by
          rw [List.filterMap_cons_some (ofPiece?_of_isName h), List.filterMap_nil]
        simp [components, hlead, hname, Component.ofPiece?]
    · simp only [List.concat_eq_append, List.getLast?_append, List.getLast?_singleton,
        Option.some_or]
      rw [components_concat h (by cases init <;> simp [hlast])]

theorem fileName?_child (p : Path) {name : String} (h : isName name = true) :
    (p.child name).fileName? = some name := by
  rw [fileName?, components_child p h, List.getLast?_append, List.getLast?_singleton]
  rfl

/-- What lies at a location below a directory. -/
def descend (p : Path) (loc : List String) : Path :=
  loc.foldl child p

@[simp] theorem descend_nil (p : Path) : p.descend [] = p := rfl

@[simp] theorem descend_cons (p : Path) (name : String) (loc : List String) :
    p.descend (name :: loc) = (p.child name).descend loc := rfl

theorem descend_append (p : Path) (loc loc' : List String) :
    p.descend (loc ++ loc') = (p.descend loc).descend loc' :=
  List.foldl_append

theorem components_descend (p : Path) {loc : List String} (h : ∀ name ∈ loc, isName name = true) :
    (p.descend loc).components = p.components ++ loc.map .name := by
  induction loc generalizing p with
  | nil => simp
  | cons name rest ih =>
    obtain ⟨hname, hrest⟩ := List.forall_mem_cons.1 h
    rw [descend_cons, ih _ hrest, components_child p hname, List.append_assoc, List.map_cons,
      List.singleton_append]

/-- Paths below a directory tell the locations apart. -/
theorem descend_injective (p : Path) {loc loc' : List String}
    (h : ∀ name ∈ loc, isName name = true) (h' : ∀ name ∈ loc', isName name = true)
    (halike : (p.descend loc).components = (p.descend loc').components) : loc = loc' := by
  rw [components_descend p h, components_descend p h', List.append_cancel_left_eq] at halike
  exact (List.map_inj_right fun _ _ => Component.name.inj).1 halike

/-! ### Ancestors -/

/-- Whether the path `q` is like `p` or leads on from there. -/
def Encloses (p q : Path) : Prop :=
  p.components <+: q.components

instance (p q : Path) : Decidable (p.Encloses q) :=
  inferInstanceAs (Decidable (_ <+: _))

theorem Encloses.refl (p : Path) : p.Encloses p :=
  List.prefix_rfl

theorem Encloses.trans {p q r : Path} (hpq : p.Encloses q) (hqr : q.Encloses r) : p.Encloses r :=
  List.IsPrefix.trans hpq hqr

/-- Paths that enclose each other are alike. -/
theorem Encloses.alike {p q : Path} (hpq : p.Encloses q) (hqp : q.Encloses p) :
    p.alike q = true := by
  rw [Path.alike, decide_eq_true_iff]
  exact hpq.eq_of_length_le hqp.length_le

theorem encloses_descend (p : Path) {loc : List String} (h : ∀ name ∈ loc, isName name = true) :
    p.Encloses (p.descend loc) := by
  rw [Encloses, components_descend p h]
  exact List.prefix_append _ _

/-- Only the top directory and the empty path have no parent. -/
theorem components_of_parent?_eq_none {p : Path} (h : p.parent? = none) :
    p.components = [] ∨ p.components = [.root] := by
  obtain ⟨pieces⟩ := p
  cases pieces with
  | nil => exact .inl rfl
  | cons first rest =>
    simp only [parent?] at h
    split at h
    · next hkept =>
      split at h
      · next hfirst =>
        have hrest : rest.filterMap Component.ofPiece? = [] := by
          rw [← filterMap_dropNoise, hkept]
          rfl
        simp only [components, hrest, leading?, hfirst, if_true, List.append_nil]
        split
        · exact .inl rfl
        · exact .inr rfl
      · simp at h
    · split at h <;> simp at h

/-- What encloses an entry is like the directory it was named in. -/
theorem exists_parent?_child (p : Path) {name : String} (h : isName name = true) :
    ∃ q, (p.child name).parent? = some q ∧ q.components = p.components := by
  have hcomponents := components_child p h
  cases hparent : (p.child name).parent? with
  | none =>
    have hlast : (p.child name).components.getLast? = some (.name name) := by
      rw [hcomponents, List.getLast?_append, List.getLast?_singleton, Option.some_or]
    rcases components_of_parent?_eq_none hparent with hnil | hroot
    · simp [hnil] at hlast
    · simp [hroot] at hlast
  | some q =>
    refine ⟨q, rfl, ?_⟩
    rw [components_parent? hparent, hcomponents, List.dropLast_concat]

theorem self_mem_ancestors (p : Path) : p ∈ p.ancestors := by
  rw [ancestors]
  exact List.mem_cons_self

/-- What encloses an ancestor is an ancestor. -/
theorem ancestors_trans {p q r : Path} (hpq : q ∈ p.ancestors) (hqr : r ∈ q.ancestors) :
    r ∈ p.ancestors := by
  rw [ancestors] at hpq ⊢
  rcases List.mem_cons.1 hpq with rfl | hpq
  · rwa [ancestors] at hqr
  · split at hpq
    · simp at hpq
    · next parent hparent =>
      have hlt := depth_parent? hparent
      exact List.mem_cons_of_mem _ (ancestors_trans hpq hqr)
termination_by p.depth

theorem mem_ancestors_of_parent? {p q : Path} (h : p.parent? = some q) : q ∈ p.ancestors := by
  rw [ancestors]
  refine List.mem_cons_of_mem _ ?_
  split
  · next hnone => simp [h] at hnone
  · next parent hparent =>
    obtain rfl := Option.some.inj (h.symm.trans hparent)
    exact self_mem_ancestors q

theorem encloses_of_mem_ancestors {p q : Path} (h : q ∈ p.ancestors) : q.Encloses p := by
  rw [ancestors] at h
  rcases List.mem_cons.1 h with rfl | h
  · exact .refl _
  · split at h
    · simp at h
    · next parent hparent =>
      have hlt := depth_parent? hparent
      refine (encloses_of_mem_ancestors h).trans ?_
      rw [Encloses, components_parent? hparent]
      exact List.dropLast_prefix _
termination_by p.depth

/-- Every prefix of the components, the empty one aside, is that of an ancestor. -/
theorem exists_mem_ancestors {p : Path} {cs : List Component} (h : cs <+: p.components)
    (hcs : cs ≠ []) : ∃ q ∈ p.ancestors, q.components = cs := by
  rw [ancestors]
  by_cases hall : cs = p.components
  · exact ⟨p, List.mem_cons_self, hall.symm⟩
  · cases hparent : p.parent? with
    | none =>
      obtain ⟨rest, hrest⟩ := h
      rcases components_of_parent?_eq_none hparent with hnil | hroot
      · rw [hnil, List.append_eq_nil_iff] at hrest
        exact absurd hrest.1 hcs
      · rw [hroot] at hrest hall
        rcases List.append_eq_singleton_iff.1 hrest with ⟨hnil, -⟩ | ⟨hone, -⟩
        · exact absurd hnil hcs
        · exact absurd hone hall
    | some q =>
      have hlt := depth_parent? hparent
      have hstart : cs <+: q.components := by
        rw [components_parent? hparent]
        obtain ⟨rest, hrest⟩ := h
        rcases List.eq_nil_or_concat rest with rfl | ⟨init, last, rfl⟩
        · exact absurd (by rw [← hrest, List.append_nil]) hall
        · rw [← hrest, List.concat_eq_append, ← List.append_assoc, List.dropLast_concat]
          exact List.prefix_append _ _
      obtain ⟨q', hq', heq⟩ := exists_mem_ancestors hstart hcs
      exact ⟨q', List.mem_cons_of_mem _ hq', heq⟩
termination_by p.depth

/-- The ancestors get shorter on the way out. -/
theorem pairwise_ancestors (p : Path) : p.ancestors.Pairwise fun a b => b.depth < a.depth := by
  rw [ancestors]
  split
  · exact List.pairwise_singleton _ _
  · next q hparent =>
    have hlt := depth_parent? hparent
    refine List.pairwise_cons.2 ⟨fun a ha => ?_, pairwise_ancestors q⟩
    have hle : a.depth ≤ q.depth := (encloses_of_mem_ancestors ha).length_le
    omega
termination_by p.depth

/-- An ancestor that comes after another one, or is it, is no deeper. -/
theorem encloses_of_not_mem_inner {p q a : Path} {inner outer : List Path}
    (hsplit : p.ancestors = inner ++ q :: outer) (ha : a ∈ p.ancestors) (hinner : a ∉ inner) :
    a.Encloses q := by
  have hpairwise := p.pairwise_ancestors
  rw [hsplit] at hpairwise ha
  have hq : q ∈ p.ancestors := by
    rw [hsplit]
    exact List.mem_append_right _ List.mem_cons_self
  have hdepth : a.depth ≤ q.depth := by
    rcases List.mem_append.1 ha with ha | ha
    · exact absurd ha hinner
    · rcases List.mem_cons.1 ha with rfl | ha
      · exact Nat.le_refl _
      · exact Nat.le_of_lt ((List.pairwise_cons.1 (List.pairwise_append.1 hpairwise).2.1).1 a ha)
  rw [← hsplit] at ha
  exact List.prefix_of_prefix_length_le (encloses_of_mem_ancestors ha)
    (encloses_of_mem_ancestors hq) hdepth

/-- Of the ancestors that satisfy a condition the innermost is found. -/
theorem encloses_of_find?_ancestors {p q a : Path} {P : Path → Bool}
    (h : p.ancestors.find? P = some q) (ha : a ∈ p.ancestors) (hP : P a = true) :
    a.Encloses q := by
  obtain ⟨-, inner, outer, hsplit, hnot⟩ := List.find?_eq_some_iff_append.1 h
  refine encloses_of_not_mem_inner hsplit ha fun hmem => ?_
  simpa [hP] using hnot a hmem

end Grove.Path
