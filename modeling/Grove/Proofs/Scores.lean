import Mathlib.Data.List.Forall2
import Grove.Proofs.Walks
import Grove.Statistics.Scores

/-!
# The scores of a project

The files that are selected are walked in path order, each once, so what they score is in the order
of their paths below the source directory too. A project has scores just where its source directory
is there and each file selected can be scored; then there is one entry for each.

## What is proved

* `Walk.increasing_sortedFiles` — the files selected are in order, each once.
* `ofFiles_eq_ok_iff` — the scores of files in order are told file by file.
* `isSome_ofProject?_iff`, `ofProject?_eq_some_iff` — when a project has scores, and which.
* `increasing_keys` — no path has two scores.
-/

namespace Grove

/-! ### The files selected -/

namespace Path

/-- Paths below a directory are ordered by what follows it. -/
theorem order_of_components_append {p q p' q' : Path} {start : List Component}
    (hp : p.components = start ++ p'.components) (hq : q.components = start ++ q'.components) :
    p.order q = p'.order q' := by
  rw [order, order, hp, hq, Ordered.compareLex_append_left]

theorem le_trans {p q r : Path} (hpq : le p q = true) (hqr : le q r = true) : le p r = true :=
  @Std.TransCmp.isLE_trans _ order _ p q r hpq hqr

theorem le_total (p q : Path) : (le p q || le q p) = true := by
  have hswap : q.order p = (p.order q).swap := Std.OrientedCmp.eq_swap
  simp only [le, hswap]
  cases p.order q <;> rfl

end Path

namespace Walk

variable {files : Files} {root : Path} {glob? : Option String} {selected : List Path}

theorem mem_filesOf {sights : List Sight} {p : Path} : p ∈ filesOf sights ↔ .file p ∈ sights := by
  rw [filesOf, List.mem_filterMap]
  constructor
  · rintro ⟨s, hs, heq⟩
    cases s with
    | file q =>
      obtain rfl := Option.some.inj heq
      exact hs
    | directory q => cases heq
    | other q => cases heq
    | broken q => cases heq
  · exact fun h => ⟨_, h, rfl⟩

/-- Files walked that are apart have different paths, all below the root. -/
theorem Apart.pairwise_filesOf {sights : List Sight} (h : Apart root sights) :
    (filesOf sights).Pairwise (fun p q => p.components ≠ q.components) ∧
      ∀ p ∈ filesOf sights, root.components <+: p.components := by
  have hplaced : ∀ p, .file p ∈ sights →
      ∃ loc, (∀ name ∈ loc, Path.isName name = true) ∧ p = root.descend loc := by
    intro p hp
    obtain ⟨loc, n, hloc, heq⟩ := h.placed _ hp
    cases n with
    | file content executable =>
      obtain rfl := Sight.file.inj heq
      exact ⟨loc, hloc, rfl⟩
    | directory es => cases heq
    | link target => cases heq
  refine ⟨List.pairwise_filterMap.2 (h.once.imp_of_mem ?_), fun p hp => ?_⟩
  · intro s s' hs hs' hne p hp q hq halike
    obtain rfl : s = .file p := by cases s <;> simp_all
    obtain rfl : s' = .file q := by cases s' <;> simp_all
    obtain ⟨loc, hloc, rfl⟩ := hplaced p hs
    obtain ⟨loc', hloc', rfl⟩ := hplaced q hs'
    exact hne (by rw [Path.descend_injective root hloc hloc' halike])
  · obtain ⟨loc, hloc, rfl⟩ := hplaced p (mem_filesOf.1 hp)
    exact Path.encloses_descend root hloc

/-- What is selected is some of the files walked, in order. -/
theorem exists_kept_of_sortedFiles {options : WalkOptions}
    (h : sortedFiles files options root glob? = .ok selected) :
    ∃ (found : List Sight) (kept : List Path), sights files options root = .ok found ∧
      kept.Sublist (filesOf found) ∧ selected = kept.mergeSort Path.le := by
  rw [sortedFiles] at h
  cases hsights : sights files options root with
  | error e =>
    rw [hsights] at h
    cases h
  | ok found =>
    rw [hsights] at h
    cases glob? with
    | none => exact ⟨found, filesOf found, rfl, List.Sublist.refl _, (Except.ok.inj h).symm⟩
    | some glob =>
      cases hglob : Pattern.Glob.compile? glob with
      | none =>
        simp only [hglob] at h
        cases h
      | some pattern =>
        simp only [hglob] at h
        exact ⟨found, _, rfl, List.filter_sublist, (Except.ok.inj h).symm⟩

/-- The files selected are in path order, each once, and lie below the root. -/
theorem increasing_sortedFiles (hfiles : files.top.wellNamed = true)
    (h : sortedFiles files .sources root glob? = .ok selected) :
    Ordered.Increasing Path.order selected ∧
      ∀ p ∈ selected, root.components <+: p.components := by
  obtain ⟨found, kept, hsights, hkept, rfl⟩ := exists_kept_of_sortedFiles h
  obtain ⟨hdifferent, hbelow⟩ := (apart_sights hfiles rfl hsights).pairwise_filesOf
  have hperm := List.mergeSort_perm kept Path.le
  refine ⟨?_, fun p hp => hbelow p (hkept.subset (hperm.mem_iff.1 hp))⟩
  have hsorted : (kept.mergeSort Path.le).Pairwise fun p q => Path.le p q = true :=
    @List.pairwise_mergeSort _ Path.le (fun _ _ _ => Path.le_trans) Path.le_total kept
  have hapart : (kept.mergeSort Path.le).Pairwise fun p q => p.components ≠ q.components :=
    (hperm.symm.pairwise_iff fun h => h.symm).1 (hdifferent.sublist hkept)
  refine (hsorted.and hapart).imp fun {p q} ⟨hle, hne⟩ => ?_
  have hne' : p.order q ≠ .eq := fun heq => hne (Path.order_eq_eq_iff.1 heq)
  cases horder : p.order q <;> simp_all [Path.le]

end Walk

/-! ### The scores of files -/

namespace Scores

/-- An entry for a file: its path below the root, and what it scores. -/
def IsEntry (scorer : Scorer) (files : Files) (root file : Path) (entry : Path × Nat) : Prop :=
  file.stripStart? root = some entry.1 ∧ scorer files file = .ok entry.2

variable {scorer : Scorer} {files : Files} {root : Path} {selected : List Path} {scores : Scores}

theorem put_of_forall_lt {rel : Path} {score : Nat} (h : ∀ e ∈ scores, rel.order e.1 = .lt) :
    put rel score scores = (rel, score) :: scores := by
  cases scores with
  | nil => rfl
  | cons e rest => simp [put, Ordered.put, h e List.mem_cons_self]

/-- A file before others has an entry before theirs. -/
theorem lt_of_forall₂ {file : Path} {entry : Path × Nat}
    (hentry : IsEntry scorer files root file entry) (hfirst : ∀ p ∈ selected, file.order p = .lt)
    (h : List.Forall₂ (IsEntry scorer files root) selected scores) :
    ∀ e ∈ scores, entry.1.order e.1 = .lt := by
  induction h with
  | nil => simp
  | @cons p e selected scores hp hrest ih =>
    refine List.forall_mem_cons.2 ⟨?_, ih fun q hq => hfirst q (List.mem_cons_of_mem _ hq)⟩
    rw [← Path.order_of_components_append (Path.components_stripStart? hentry.1)
      (Path.components_stripStart? hp.1)]
    exact hfirst p List.mem_cons_self

/-- Entries of files in order are in order. -/
theorem increasing_keys (hselected : Ordered.Increasing Path.order selected)
    (h : List.Forall₂ (IsEntry scorer files root) selected scores) :
    Ordered.Increasing Path.order (scores.map (·.1)) := by
  induction h with
  | nil => exact .nil
  | @cons file entry selected scores hentry hrest ih =>
    obtain ⟨hfirst, hlater⟩ := List.pairwise_cons.1 hselected
    refine List.pairwise_cons.2 ⟨fun key hkey => ?_, ih hlater⟩
    obtain ⟨e, he, rfl⟩ := List.mem_map.1 hkey
    exact lt_of_forall₂ hentry hfirst hrest e he

/-- The scores of files in order are told file by file. -/
theorem ofFiles_eq_ok_iff (hselected : Ordered.Increasing Path.order selected)
    (hbelow : ∀ p ∈ selected, root.components <+: p.components) :
    ofFiles scorer files root selected = .ok scores ↔
      List.Forall₂ (IsEntry scorer files root) selected scores := by
  induction selected generalizing scores with
  | nil => simp [ofFiles, eq_comm]
  | cons file selected ih =>
    obtain ⟨hfirst, hlater⟩ := List.pairwise_cons.1 hselected
    obtain ⟨hstart, hbelow⟩ := List.forall_mem_cons.1 hbelow
    obtain ⟨rel, hrel⟩ := Path.exists_stripStart? hstart
    rw [List.forall₂_cons_left_iff, ofFiles, hrel]
    cases hscore : scorer files file with
    | error e =>
      simp [IsEntry, hscore, bind, Except.bind]
    | ok score =>
      have hentry : IsEntry scorer files root file (rel, score) := ⟨hrel, hscore⟩
      constructor
      · intro h
        cases hrest : ofFiles scorer files root selected with
        | error e => simp [hrest, bind, Except.bind] at h
        | ok rest =>
          have hentries := (ih hlater hbelow).1 hrest
          simp only [hrest, bind, Except.bind, pure, Except.pure, Except.ok.injEq] at h
          rw [put_of_forall_lt (lt_of_forall₂ hentry hfirst hentries)] at h
          exact ⟨_, rest, hentry, hentries, h.symm⟩
      · rintro ⟨entry, rest, ⟨hrel', hscore'⟩, hentries, rfl⟩
        obtain rfl : entry = (rel, score) := Prod.ext
          (Option.some.inj (hrel'.symm.trans hrel)) (Except.ok.inj (hscore'.symm.trans hscore))
        simp only [(ih hlater hbelow).2 hentries, bind, Except.bind, pure, Except.pure]
        rw [put_of_forall_lt (lt_of_forall₂ hentry hfirst hentries)]

/-! ### The scores of a project -/

/-- The scores of a project, where it has sources and none of its files fails. -/
def ofProject? (scorer : Scorer) (glob? : Option String) (files : Files) (pom : Pom) :
    Option Scores :=
  match ofProject scorer glob? files pom with
  | .ok scores? => scores?
  | .error _ => none

/-- Where the sources of a project lie. -/
def sourceRoot (pom : Pom) : Path :=
  pom.directory.join sourceDirectory

/-- A project has scores where its source directory is there and each file selected has an entry. -/
theorem ofProject?_eq_some_iff (hfiles : files.top.wellNamed = true) {glob? : Option String}
    {pom : Pom} :
    ofProject? scorer glob? files pom = some scores ↔
      files.isDirectory (sourceRoot pom) = true ∧
        ∃ selected, Walk.sortedFiles files .sources (sourceRoot pom) glob? = .ok selected ∧
          List.Forall₂ (IsEntry scorer files (sourceRoot pom)) selected scores := by
  rw [ofProject?, ofProject, ← sourceRoot]
  by_cases hdir : files.isDirectory (sourceRoot pom) = true
  · simp only [hdir, if_true, true_and]
    cases hselected : Walk.sortedFiles files .sources (sourceRoot pom) glob? with
    | error e => simp [Except.mapError, bind, Except.bind]
    | ok selected =>
      obtain ⟨hincreasing, hbelow⟩ := Walk.increasing_sortedFiles hfiles hselected
      simp only [Except.mapError, bind, Except.bind, Except.ok.injEq, exists_eq_left',
        ← ofFiles_eq_ok_iff hincreasing hbelow]
      cases ofFiles scorer files (sourceRoot pom) selected <;> simp [pure, Except.pure]
  · simp [hdir, pure, Except.pure]

/-- Files that can all be scored have entries. -/
theorem exists_forall₂_iff (hbelow : ∀ p ∈ selected, root.components <+: p.components) :
    (∃ scores, List.Forall₂ (IsEntry scorer files root) selected scores) ↔
      ∀ file ∈ selected, ∃ score, scorer files file = .ok score := by
  induction selected with
  | nil => simp
  | cons file selected ih =>
    obtain ⟨hstart, hbelow⟩ := List.forall_mem_cons.1 hbelow
    obtain ⟨rel, hrel⟩ := Path.exists_stripStart? hstart
    rw [List.forall_mem_cons, ← ih hbelow]
    constructor
    · rintro ⟨scores, h⟩
      obtain ⟨entry, rest, hentry, hrest, -⟩ := List.forall₂_cons_left_iff.1 h
      exact ⟨⟨entry.2, hentry.2⟩, rest, hrest⟩
    · rintro ⟨⟨score, hscore⟩, rest, hrest⟩
      exact ⟨(rel, score) :: rest, .cons ⟨hrel, hscore⟩ hrest⟩

/-- A project has scores where its source directory is there and its files can all be scored. -/
theorem isSome_ofProject?_iff (hfiles : files.top.wellNamed = true) {glob? : Option String}
    {pom : Pom} :
    (∃ scores, ofProject? scorer glob? files pom = some scores) ↔
      files.isDirectory (sourceRoot pom) = true ∧
        ∃ selected, Walk.sortedFiles files .sources (sourceRoot pom) glob? = .ok selected ∧
          ∀ file ∈ selected, ∃ score, scorer files file = .ok score := by
  simp only [ofProject?_eq_some_iff hfiles, exists_and_left]
  refine and_congr_right fun _ => ?_
  rw [exists_comm]
  refine exists_congr fun selected => ?_
  rw [exists_and_left]
  refine and_congr_right fun hselected => ?_
  exact exists_forall₂_iff (Walk.increasing_sortedFiles hfiles hselected).2

end Scores

end Grove
