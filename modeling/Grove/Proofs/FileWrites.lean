import Grove.Proofs.Encoding
import Grove.Proofs.Placement

/-!
# Files written one after the other

A file that is written goes where its path leads, is read there, and leads no other path elsewhere.
So files whose paths lead to different places can be written in any order, and each is there in the
end.

## What is proved

* `write_eq_ok_iff` — what a write does, and when.
* `read_of_write`, `read_of_write_of_apart` — what is read after a write.
* `write_comm`, `writeAll_perm` — writes that lead to different places come in any order.
* `createDirectories_again` — directories that were made need not be made again.
-/

namespace Grove

namespace Files

open Node

/-- The path leads to the location. -/
def LeadsTo (fs : Files) (p : Path) (loc : Location) : Prop :=
  ∃ present, fs.place p = .ok ⟨loc, present⟩

/-- The paths do not lead to one location. -/
def Apart (fs : Files) (p q : Path) : Prop :=
  ∀ loc, fs.LeadsTo p loc → ¬fs.LeadsTo q loc

variable {fs fs' : Files} {p q : Path} {loc loc' : Location}

theorem Apart.symm (h : fs.Apart p q) : fs.Apart q p :=
  fun loc hq hp => h loc hp hq

theorem LeadsTo.unique (h : fs.LeadsTo p loc) (h' : fs.LeadsTo p loc') : loc = loc' := by
  obtain ⟨present, h⟩ := h
  obtain ⟨present', h'⟩ := h'
  exact (Place.mk.inj (Except.ok.inj (h.symm.trans h'))).1

theorem LeadsTo.isFileLocation (h : fs.LeadsTo p loc) (hfree : fs.top.IsFree loc) :
    IsFileLocation fs.top loc := by
  obtain ⟨present, h⟩ := h
  rw [place] at h
  split at h
  · simp at h
  · next hne => exact isFileLocation_of_pieces hne h hfree

theorem LeadsTo.of_agreeOff {loc₀ : Location} (h : fs.LeadsTo p loc)
    (hagree : AgreeOff loc₀ fs.top fs'.top) (hafter : fs'.top.IsFree loc₀)
    (hhere : fs'.here = fs.here)
    (hend : loc ≠ loc₀ ∨ fs.top.kindAt loc₀ = some .file) : fs'.LeadsTo p loc := by
  obtain ⟨present, h⟩ := h
  rw [place] at h
  split at h
  · simp at h
  · next hne =>
    obtain ⟨present', h'⟩ := follow_of_agreeOff hagree hafter h hend
    exact ⟨present', by rw [place, if_neg hne, hhere, h']⟩

/-! ### Writing -/

/-- A file that is written at a location is a program if one was there that is. -/
def Fits (top : Node) (loc : Location) (executable : Bool) : Prop :=
  (∃ content, top.get? loc = some (.file content executable)) ∨
    (top.get? loc = none ∧ executable = false)

theorem Fits.isFree {top : Node} {executable : Bool} (h : Fits top loc executable) :
    top.IsFree loc := by
  rcases h with ⟨content, h⟩ | ⟨h, -⟩
  · exact .inr (by rw [kindAt, h]; rfl)
  · exact .inl (by rw [kindAt, h]; rfl)

theorem isOk_place_iff : (fs.place p).isOk = true ↔ ∃ loc, fs.LeadsTo p loc := by
  cases h : fs.place p with
  | error e => simp [Except.isOk, Except.toBool, LeadsTo, h]
  | ok place =>
    simp only [Except.isOk, Except.toBool, true_iff]
    exact ⟨place.location, place.present, h⟩

section

variable {content : ByteArray} {executable : Bool}

/-- A file that is put where a path leads changes no other node. -/
theorem LeadsTo.agreeOff_put (h : fs.LeadsTo p loc) (hfits : Fits fs.top loc executable)
    (content : ByteArray) :
    AgreeOff loc fs.top (fs.putAt loc (.file content executable)).top :=
  .put (h.isFileLocation hfits.isFree) fun _ _ => rfl

theorem get?_putAt (fs : Files) (loc : Location) (n : Node) :
    (fs.putAt loc n).top.get? loc = some n :=
  get?_put_self ..

theorem kindAt_putAt_file :
    (fs.putAt loc (.file content executable)).top.kindAt loc = some .file := by
  rw [kindAt, get?_putAt]
  rfl

/-- A path that leads somewhere once a file is put where another leads did so before. -/
theorem LeadsTo.of_put (hq : fs.LeadsTo q loc) (hfits : Fits fs.top loc executable)
    (h : (fs.putAt loc (.file content executable)).LeadsTo p loc') : fs.LeadsTo p loc' :=
  h.of_agreeOff ((hq.agreeOff_put hfits content).symm (.inr kindAt_putAt_file)) hfits.isFree rfl
    (.inr kindAt_putAt_file)

/-- What a write does: the file goes where the path leads, and the path leads to it. -/
structure Writes (fs : Files) (p : Path) (content : ByteArray) (loc : Location)
    (executable : Bool) (fs' : Files) : Prop where
  leads : fs.LeadsTo p loc
  fits : Fits fs.top loc executable
  result : fs' = fs.putAt loc (.file content executable)
  leads' : fs'.LeadsTo p loc

theorem write_eq_ok_iff :
    fs.write p content = .ok fs' ↔ ∃ loc executable, Writes fs p content loc executable fs' := by
  constructor
  · intro h
    rw [write] at h
    cases hplace : fs.place p with
    | error e => simp [hplace, bind, Except.bind] at h
    | ok place =>
      have hleads : fs.LeadsTo p place.location := ⟨place.present, hplace⟩
      simp only [hplace, bind, Except.bind] at h
      split at h
      · next old executable hget =>
        obtain rfl := Except.ok.inj h
        have hfits : Fits fs.top place.location executable := .inl ⟨old, hget⟩
        refine ⟨place.location, executable, hleads, hfits, rfl, ?_⟩
        refine hleads.of_agreeOff (hleads.agreeOff_put hfits content) (.inr kindAt_putAt_file) rfl
          (.inr ?_)
        rw [kindAt, hget]
        rfl
      · simp at h
      · next hget =>
        split at h
        · next hok =>
          obtain rfl := Except.ok.inj h
          have hfits : Fits fs.top place.location false := .inr ⟨hget, rfl⟩
          obtain ⟨loc', hleads'⟩ := isOk_place_iff.1 hok
          obtain rfl := hleads.unique (hleads.of_put hfits hleads')
          exact ⟨place.location, false, hleads, hfits, rfl, hleads'⟩
        · simp at h
  · rintro ⟨loc, executable, ⟨present, hplace⟩, hfits, rfl, hleads⟩
    have hok := isOk_place_iff.2 ⟨loc, hleads⟩
    rw [write, hplace]
    simp only [bind, Except.bind]
    rcases hfits with ⟨old, hget⟩ | ⟨hget, rfl⟩
    · rw [hget]
    · rw [hget]
      simp only [hok, if_true]

end

variable {content content' : ByteArray} {executable : Bool}

theorem Writes.kindAt_eq (h : Writes fs p content loc executable fs') :
    fs'.top.kindAt loc = some .file := by
  rw [h.result]
  exact kindAt_putAt_file

theorem Writes.agreeOff (h : Writes fs p content loc executable fs') :
    AgreeOff loc fs.top fs'.top := by
  rw [h.result]
  exact h.leads.agreeOff_put h.fits content

theorem Writes.here_eq (h : Writes fs p content loc executable fs') : fs'.here = fs.here := by
  rw [h.result]
  rfl

/-- A path that leads somewhere after a write did so before. -/
theorem Writes.leadsTo_before (h : Writes fs p content loc executable fs')
    (hq : fs'.LeadsTo q loc') : fs.LeadsTo q loc' :=
  hq.of_agreeOff (h.agreeOff.symm (.inr h.kindAt_eq)) h.fits.isFree h.here_eq.symm
    (.inr h.kindAt_eq)

/-- A path that leads elsewhere does so after a write. -/
theorem Writes.leadsTo_after (h : Writes fs p content loc executable fs')
    (hq : fs.LeadsTo q loc') (hne : loc' ≠ loc) : fs'.LeadsTo q loc' :=
  hq.of_agreeOff h.agreeOff (.inr h.kindAt_eq) h.here_eq (.inl hne)

/-- Paths that lead to different places still do so after a write. -/
theorem Writes.apart (h : Writes fs p content loc executable fs') {q' : Path}
    (hq : fs.Apart q q') : fs'.Apart q q' :=
  fun l hl hl' => hq l (h.leadsTo_before hl) (h.leadsTo_before hl')

/-- What a file may be written over elsewhere is the same after a write. -/
theorem Writes.get?_eq (h : Writes fs p content loc executable fs') (hq : fs.LeadsTo q loc')
    (hfree : fs.top.IsFree loc') (hne : loc' ≠ loc) : fs'.top.get? loc' = fs.top.get? loc' := by
  rw [h.result]
  exact get?_put_of_apart
    ((h.leads.isFileLocation h.fits.isFree).apart (hq.isFileLocation hfree) hne.symm) ..

theorem read_eq_ok_iff : fs.read p = .ok content ↔
    ∃ loc executable, fs.LeadsTo p loc ∧ fs.top.get? loc = some (.file content executable) := by
  rw [read]
  constructor
  · intro h
    cases hnode : fs.node p with
    | error e => simp [hnode, bind, Except.bind] at h
    | ok n =>
      obtain ⟨place, hplace, hget⟩ := node_eq_ok_iff.1 hnode
      cases n with
      | file content' executable =>
        simp only [hnode, bind, Except.bind, Except.ok.injEq] at h
        exact ⟨place.location, executable, ⟨place.present, hplace⟩, h ▸ hget⟩
      | directory es => simp [hnode, bind, Except.bind] at h
      | link target => simp [hnode, bind, Except.bind] at h
  · rintro ⟨loc, executable, ⟨present, hplace⟩, hget⟩
    rw [node_eq_ok_iff.2 ⟨_, hplace, hget⟩]
    rfl

/-- What is written is read. -/
theorem read_of_write (h : fs.write p content = .ok fs') : fs'.read p = .ok content := by
  obtain ⟨loc, executable, hwrites⟩ := write_eq_ok_iff.1 h
  refine read_eq_ok_iff.2 ⟨loc, executable, hwrites.leads', ?_⟩
  rw [hwrites.result, get?_putAt]

/-- What is read elsewhere is the same after a write. -/
theorem read_of_write_of_apart (h : fs.write p content = .ok fs') (happart : fs.Apart p q)
    (hq : fs.read q = .ok content') : fs'.read q = .ok content' := by
  obtain ⟨loc, executable, hwrites⟩ := write_eq_ok_iff.1 h
  obtain ⟨loc', executable', hleads, hget⟩ := read_eq_ok_iff.1 hq
  have hne : loc' ≠ loc := by
    rintro rfl
    exact happart _ hwrites.leads hleads
  have hfree : fs.top.IsFree loc' := .inr (by rw [kindAt, hget]; rfl)
  exact read_eq_ok_iff.2 ⟨loc', executable', hwrites.leadsTo_after hleads hne,
    (hwrites.get?_eq hleads hfree hne).trans hget⟩

/-- Files that lie in different places can be written in either order. -/
theorem write_comm {mid : Files} (happart : fs.Apart p q) (hp : fs.write p content = .ok mid)
    (hq : mid.write q content' = .ok fs') :
    ∃ mid', fs.write q content' = .ok mid' ∧ mid'.write p content = .ok fs' := by
  obtain ⟨loc, executable, hp⟩ := write_eq_ok_iff.1 hp
  obtain ⟨loc', executable', hq⟩ := write_eq_ok_iff.1 hq
  have hleads : fs.LeadsTo q loc' := hp.leadsTo_before hq.leads
  have hne : loc' ≠ loc := by
    rintro rfl
    exact happart _ hp.leads hleads
  have hfree : fs.top.IsFree loc' := by
    have hfree := hq.fits.isFree
    rwa [IsFree, hp.agreeOff.elsewhere loc' hne] at hfree
  have hfits : Fits fs.top loc' executable' := by
    have hfits := hq.fits
    rwa [Fits, hp.get?_eq hleads hfree hne] at hfits
  have hlocations : Node.Apart loc' loc :=
    (hleads.isFileLocation hfree).apart (hp.leads.isFileLocation hp.fits.isFree) hne
  -- the other file alone, and this one after it
  let mid' := fs.putAt loc' (.file content' executable')
  have hresult : fs' = mid'.putAt loc (.file content executable) := by
    rw [hq.result, hp.result]
    simp only [mid', putAt, put_comm hlocations]
  have hleads' : mid'.LeadsTo p loc :=
    hp.leads.of_agreeOff (hleads.agreeOff_put hfits content') (.inr kindAt_putAt_file) rfl
      (.inl hne.symm)
  have hfits' : Fits mid'.top loc executable := by
    have hfits := hp.fits
    rwa [Fits, ← get?_put_of_apart hlocations fs.top] at hfits
  have hlast : fs'.LeadsTo q loc' := hq.leads'
  rw [hresult] at hlast
  exact ⟨mid', write_eq_ok_iff.2
      ⟨loc', executable', hleads, hfits, rfl, hleads'.of_put hfits' hlast⟩,
    write_eq_ok_iff.2
      ⟨loc, executable, hleads', hfits', hresult, hq.leadsTo_after hp.leads' hne.symm⟩⟩

/-! ### Several files -/

/-- The text of a file that holds it. -/
theorem readText_of_read {text : String} (h : fs.read p = .ok text.toUTF8) :
    fs.readText p = .ok text := by
  rw [readText, h]
  simp only [bind, Except.bind, Text.fromUTF8?_toUTF8]

/-- Writes text files one after the other. -/
def writeAll (fs : Files) : List (Path × String) → Except OsError Files
  | [] => .ok fs
  | (p, text) :: rest => do (← fs.writeText p text).writeAll rest

theorem writeAll_cons_eq_ok_iff {text : String} {rest : List (Path × String)} :
    fs.writeAll ((p, text) :: rest) = .ok fs' ↔
      ∃ mid, fs.writeText p text = .ok mid ∧ mid.writeAll rest = .ok fs' := by
  rw [writeAll]
  cases fs.writeText p text <;> simp [bind, Except.bind]

theorem writeAll_append_eq_ok_iff {files rest : List (Path × String)} :
    fs.writeAll (files ++ rest) = .ok fs' ↔
      ∃ mid, fs.writeAll files = .ok mid ∧ mid.writeAll rest = .ok fs' := by
  induction files generalizing fs with
  | nil => simp [writeAll]
  | cons file files ih =>
    obtain ⟨p, text⟩ := file
    simp only [List.cons_append, writeAll_cons_eq_ok_iff, ih]
    constructor
    · rintro ⟨first, hfirst, mid, hmid, hrest⟩
      exact ⟨mid, ⟨first, hfirst, hmid⟩, hrest⟩
    · rintro ⟨mid, ⟨first, hfirst, hmid⟩, hrest⟩
      exact ⟨first, hfirst, mid, hmid, hrest⟩

theorem apart_of_write {q' : Path} (h : fs.write p content = .ok fs') (hq : fs.Apart q q') :
    fs'.Apart q q' := by
  obtain ⟨loc, executable, hwrites⟩ := write_eq_ok_iff.1 h
  exact hwrites.apart hq

/-- Files whose paths lead to different places can be written in any order. -/
theorem writeAll_perm {files files' : List (Path × String)} (hperm : files.Perm files')
    (hapart : (files.map (·.1)).Pairwise fs.Apart) (h : fs.writeAll files = .ok fs') :
    fs.writeAll files' = .ok fs' := by
  induction hperm generalizing fs with
  | nil => exact h
  | @cons file files files' hperm ih =>
    obtain ⟨mid, hfirst, hrest⟩ := writeAll_cons_eq_ok_iff.1 h
    obtain ⟨-, hlater⟩ := List.pairwise_cons.1 hapart
    refine writeAll_cons_eq_ok_iff.2 ⟨mid, hfirst, ih (hlater.imp ?_) hrest⟩
    exact apart_of_write hfirst
  | swap file file' files =>
    obtain ⟨mid, hfirst, h⟩ := writeAll_cons_eq_ok_iff.1 h
    obtain ⟨mid', hsecond, hrest⟩ := writeAll_cons_eq_ok_iff.1 h
    have happart : fs.Apart file'.1 file.1 := (List.pairwise_cons.1 hapart).1 _ (by simp)
    obtain ⟨other, hother, hlast⟩ := write_comm happart hfirst hsecond
    exact writeAll_cons_eq_ok_iff.2
      ⟨other, hother, writeAll_cons_eq_ok_iff.2 ⟨mid', hlast, hrest⟩⟩
  | trans hperm _ ih ih' =>
    exact ih' (((hperm.map _).pairwise_iff Apart.symm).1 hapart) (ih hapart h)

/-- What is read elsewhere is the same after files are written. -/
theorem read_of_writeAll_of_apart {files : List (Path × String)} (h : fs.writeAll files = .ok fs')
    (hapart : ∀ file ∈ files, fs.Apart file.1 q) (hq : fs.read q = .ok content) :
    fs'.read q = .ok content := by
  induction files generalizing fs with
  | nil =>
    obtain rfl := Except.ok.inj h
    exact hq
  | cons file files ih =>
    obtain ⟨mid, hfirst, hrest⟩ := writeAll_cons_eq_ok_iff.1 h
    obtain ⟨hfile, hlater⟩ := List.forall_mem_cons.1 hapart
    exact ih hrest (fun file' hfile' => apart_of_write hfirst (hlater file' hfile'))
      (read_of_write_of_apart hfirst hfile hq)

/-- Files whose paths lead to different places are all there in the end. -/
theorem readText_of_writeAll {files : List (Path × String)}
    (hapart : (files.map (·.1)).Pairwise fs.Apart) (h : fs.writeAll files = .ok fs') :
    ∀ file ∈ files, fs'.readText file.1 = .ok file.2 := by
  induction files generalizing fs with
  | nil => simp
  | cons file files ih =>
    obtain ⟨mid, hfirst, hrest⟩ := writeAll_cons_eq_ok_iff.1 h
    obtain ⟨hfile, hlater⟩ := List.pairwise_cons.1 hapart
    refine List.forall_mem_cons.2 ⟨readText_of_read ?_, ih (hlater.imp ?_) hrest⟩
    · refine read_of_writeAll_of_apart hrest (fun file' hfile' => ?_) (read_of_write hfirst)
      exact (apart_of_write hfirst (hfile _ (List.mem_map_of_mem hfile'))).symm
    · exact apart_of_write hfirst

/-! ### Directories -/

theorem isDirectory_iff : fs.isDirectory p = true ↔
    ∃ loc, fs.LeadsTo p loc ∧ fs.top.kindAt loc = some .directory := by
  rw [isDirectory]
  constructor
  · intro h
    cases hnode : fs.node p with
    | error e => simp [hnode] at h
    | ok n =>
      obtain ⟨place, hplace, hget⟩ := node_eq_ok_iff.1 hnode
      rw [hnode] at h
      refine ⟨place.location, ⟨place.present, hplace⟩, ?_⟩
      rw [kindAt, hget]
      cases n <;> simp_all [Node.isDirectory, kind]
  · rintro ⟨loc, ⟨present, hplace⟩, hkind⟩
    obtain ⟨es, hget⟩ := kindAt_eq_directory_iff.1 hkind
    rw [node_eq_ok_iff.2 ⟨_, hplace, hget⟩]
    rfl

theorem isDirectory_of_write (h : fs.write p content = .ok fs') (hq : fs.isDirectory q = true) :
    fs'.isDirectory q = true := by
  obtain ⟨loc, executable, hwrites⟩ := write_eq_ok_iff.1 h
  obtain ⟨loc', hleads, hdir⟩ := isDirectory_iff.1 hq
  have hne : loc' ≠ loc := by
    rintro rfl
    exact not_isFree_of_directory hdir hwrites.fits.isFree
  refine isDirectory_iff.2 ⟨loc', hwrites.leadsTo_after hleads hne, ?_⟩
  rw [hwrites.agreeOff.elsewhere loc' hne, hdir]

theorem isDirectory_of_writeAll {files : List (Path × String)} (h : fs.writeAll files = .ok fs')
    (hq : fs.isDirectory q = true) : fs'.isDirectory q = true := by
  induction files generalizing fs with
  | nil =>
    obtain rfl := Except.ok.inj h
    exact hq
  | cons file files ih =>
    obtain ⟨mid, hfirst, hrest⟩ := writeAll_cons_eq_ok_iff.1 h
    exact ih hrest (isDirectory_of_write hfirst hq)

/-- A directory that is made is there. -/
theorem isDirectory_of_createDirectory (h : fs.createDirectory p = .ok fs') :
    fs'.isDirectory p = true := by
  rw [createDirectory] at h
  cases hplace : fs.placeOfLink p with
  | error e => simp [hplace, bind, Except.bind] at h
  | ok place =>
    obtain ⟨loc, present⟩ := place
    simp only [hplace, bind, Except.bind] at h
    cases present with
    | true => simp at h
    | false =>
      obtain rfl : fs.putAt loc .emptyDirectory = fs' := by simpa using h
      rw [placeOfLink] at hplace
      split at hplace
      · simp at hplace
      · next hne =>
        have hnone := kindAt_of_follow_absent hplace
        have hmade : (fs.putAt loc .emptyDirectory).top.kindAt loc = some .directory := by
          rw [kindAt, get?_putAt]
          rfl
        have hagree : AgreeOff loc fs.top (fs.putAt loc .emptyDirectory).top :=
          .put (isFileLocation_of_pieces hne hplace (.inl hnone)) fun _ _ => rfl
        refine isDirectory_iff.2 ⟨loc, ⟨true, ?_⟩, hmade⟩
        rw [place, if_neg hne]
        exact follow_of_made hagree hnone hmade hplace

/-- A directory that is there is not made. -/
theorem createDirectory_of_isDirectory (h : fs.isDirectory p = true) :
    fs.createDirectory p = .error .alreadyExists := by
  obtain ⟨loc, ⟨present, hplace⟩, hdir⟩ := isDirectory_iff.1 h
  rw [place] at hplace
  split at hplace
  · simp at hplace
  · next hne =>
    obtain ⟨es, hget⟩ := kindAt_eq_directory_iff.1 hdir
    obtain ⟨loc', hlink⟩ := exists_follow_false hplace (by rw [hget]; rfl)
    rw [createDirectory, placeOfLink, if_neg hne, hlink]
    rfl

theorem missingAncestors_of_nil (hnil : p.components = []) :
    fs.missingAncestors p.ancestors = [] := by
  rw [Path.ancestors, missingAncestors, if_pos hnil]

theorem exists_missingAncestors (fs : Files) (hne : p.components ≠ []) :
    ∃ outer, fs.missingAncestors p.ancestors = p :: outer ∧
      (fs.createDirectory p ≠ .error .notFound → outer = []) := by
  rw [Path.ancestors, missingAncestors, if_neg hne]
  split
  · next hmissing => exact ⟨_, rfl, fun h => absurd hmissing h⟩
  · exact ⟨[], rfl, fun _ => rfl⟩

/-- A directory that is there stands for those it lies in. -/
theorem createDirectories_of_isDirectory (h : fs.isDirectory p = true) :
    fs.createDirectories p = .ok fs := by
  have hne : p.components ≠ [] := by
    obtain ⟨loc, ⟨present, hplace⟩, -⟩ := isDirectory_iff.1 h
    intro hnil
    simp [place, hnil] at hplace
  have hthere := createDirectory_of_isDirectory h
  obtain ⟨outer, houter, hnone⟩ := exists_missingAncestors fs hne
  rw [createDirectories, houter, hnone (by simp [hthere])]
  simp [createEach, hne, hthere, h]

theorem createEach_append {paths paths' : List Path} :
    fs.createEach (paths ++ paths') = (fs.createEach paths).bind (createEach · paths') := by
  induction paths generalizing fs with
  | nil => rfl
  | cons p paths ih =>
    simp only [List.cons_append, createEach]
    split
    · exact ih
    · split
      · exact ih
      · split
        · exact ih
        · rfl

/-- A directory that is made with those it lies in is there, unless there was none to make. -/
theorem isDirectory_of_createDirectories (hne : p.components ≠ [])
    (h : fs.createDirectories p = .ok fs') : fs'.isDirectory p = true := by
  obtain ⟨outer, houter, -⟩ := exists_missingAncestors fs hne
  rw [createDirectories, houter, List.reverse_cons, createEach_append] at h
  cases hmid : fs.createEach outer.reverse with
  | error e => simp [hmid, Except.bind] at h
  | ok mid =>
    simp only [hmid, Except.bind, createEach, hne, if_false] at h
    split at h
    · next made hmade =>
      obtain rfl := Except.ok.inj h
      exact isDirectory_of_createDirectory hmade
    · split at h
      · next hdir =>
        obtain rfl := Except.ok.inj h
        exact hdir
      · simp at h

/-- Directories that were made once need not be made again after files were written. -/
theorem createDirectories_again {files : List (Path × String)} {mid : Files}
    (h : fs.createDirectories p = .ok mid) (hfiles : mid.writeAll files = .ok fs') :
    fs'.createDirectories p = .ok fs' := by
  by_cases hnil : p.components = []
  · rw [createDirectories, missingAncestors_of_nil hnil]
    rfl
  · exact createDirectories_of_isDirectory
      (isDirectory_of_writeAll hfiles (isDirectory_of_createDirectories hnil h))

end Files

end Grove
