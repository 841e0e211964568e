import Mathlib.Data.String.Basic
import Grove.Proofs.Assignment
import Grove.Proofs.Branches

/-!
# Branches from references

A snapshot of branches is read from the full names of references, listed in any order and perhaps
more than once. Reading a reference undoes writing it: a branch is read from its own reference and
from no other. So a snapshot holds the branches whose references are listed, and what a look-up
finds is told by the list alone: a local branch by its own reference, a remote one by that of
`origin` or else of the least remote that has one.

## What is proved

* `Branch.ofRef?_eq_some_iff` — which branch a reference stands for.
* `mem_ofRefs_iff` — the branches of a snapshot.
* `findRemote?_eq_some_iff` — of the remotes that carry a name, the one that is found.
* `lookup_listed` — every look-up, told by the references that are listed.
-/

namespace Grove

namespace Text

theorem dropStart?_eq_some_iff {pattern cs rest : List Char} :
    dropStart? pattern cs = some rest ↔ cs = pattern ++ rest := by
  constructor
  · exact append_of_dropStart
  · rintro rfl
    exact dropStart?_append pattern rest

/-- The cut at a character is at the first one. -/
theorem cut_singleton_eq_some_iff {sep : Char} {cs before after : List Char} :
    cut [sep] cs = some (before, after) ↔ cs = before ++ sep :: after ∧ sep ∉ before := by
  have hcut : ∀ before after : List Char, sep ∉ before →
      cut [sep] (before ++ sep :: after) = some (before, after) := by
    intro before after hbefore
    rw [cut_of_notMem hbefore, show sep :: after = [sep] ++ after from rfl,
      cut_append_self (List.cons_ne_nil _ _)]
    simp
  constructor
  · intro h
    have hmem : sep ∈ cs := by
      rw [append_of_cut h]
      simp
    obtain ⟨before', after', rfl, hbefore'⟩ := List.eq_append_cons_of_mem hmem
    obtain ⟨rfl, rfl⟩ : before' = before ∧ after' = after := by
      simpa [hcut before' after' hbefore'] using h
    exact ⟨rfl, hbefore'⟩
  · rintro ⟨rfl, hbefore⟩
    exact hcut before after hbefore

end Text

namespace Branch

/-! ### The reference of a branch -/

/-- The full name of the reference that stands for a branch. -/
def reference (b : Branch) : String :=
  (if b.isRemote then "refs/remotes/" else "refs/heads/") ++ b.trackingName

/-- A branch that a reference can stand for. -/
structure Listable (b : Branch) : Prop where
  /-- It has a name. -/
  name_ne : b.name ≠ ""
  /-- A remote that it belongs to has a name without a slash, and has more of it than its `HEAD`. -/
  remote : ∀ remote, b.remote? = some remote → '/' ∉ remote.toList ∧ b.name ≠ "HEAD"

theorem listable_localNamed {name : String} : (localNamed name).Listable ↔ name ≠ "" := by
  refine ⟨fun h => h.name_ne, fun h => ⟨h, fun _ hremote => ?_⟩⟩
  exact absurd hremote (by simp [localNamed])

theorem listable_remoteNamed {remote name : String} :
    (remoteNamed remote name).Listable ↔ '/' ∉ remote.toList ∧ name ≠ "" ∧ name ≠ "HEAD" := by
  constructor
  · rintro ⟨hname, hremote⟩
    obtain ⟨hslash, hhead⟩ := hremote remote rfl
    exact ⟨hslash, hname, hhead⟩
  · rintro ⟨hslash, hname, hhead⟩
    refine ⟨hname, fun remote' hremote => ?_⟩
    obtain rfl := Option.some.inj hremote
    exact ⟨hslash, hhead⟩

theorem toList_reference_localNamed (name : String) :
    (localNamed name).reference.toList = "refs/heads/".toList ++ name.toList := by
  simp [reference, localNamed, isRemote, trackingName]

theorem toList_reference_remoteNamed (remote name : String) :
    (remoteNamed remote name).reference.toList =
      "refs/remotes/".toList ++ (remote.toList ++ '/' :: name.toList) := by
  simp [reference, remoteNamed, isRemote, trackingName]

section

variable {ref : String} {remote name : List Char} {b : Branch}

/-- A reference below `refs/heads/` stands for the local branch of the name behind it. -/
theorem ofRef?_of_heads (href : ref.toList = "refs/heads/".toList ++ name) :
    ofRef? ref = if name = [] then none else some (localNamed (String.ofList name)) := by
  rw [ofRef?, href, Text.dropStart?_append]
  cases name <;> rfl

/-- A reference below `refs/remotes/` stands for the branch of the remote before the first slash. -/
theorem ofRef?_of_remotes (hslash : '/' ∉ remote)
    (href : ref.toList = "refs/remotes/".toList ++ (remote ++ '/' :: name)) :
    ofRef? ref = if name = [] ∨ name = "HEAD".toList then none
      else some (remoteNamed (String.ofList remote) (String.ofList name)) := by
  have hheads : Text.dropStart? "refs/heads/".toList
      ("refs/remotes/".toList ++ (remote ++ '/' :: name)) = none := rfl
  have hcut : Text.cut ['/'] (remote ++ '/' :: name) = some (remote, name) :=
    Text.cut_singleton_eq_some_iff.2 ⟨rfl, hslash⟩
  rw [ofRef?, href, hheads, Text.dropStart?_append]
  simp only [hcut]

/-- A reference that stands for a branch lies below one of the two. -/
theorem exists_of_ofRef? (h : ofRef? ref = some b) :
    (∃ name, ref.toList = "refs/heads/".toList ++ name) ∨
      ∃ remote name, '/' ∉ remote ∧
        ref.toList = "refs/remotes/".toList ++ (remote ++ '/' :: name) := by
  rw [ofRef?] at h
  split at h
  · cases h
  · next hheads => exact .inl ⟨_, Text.dropStart?_eq_some_iff.1 hheads⟩
  · split at h
    · cases h
    · next rest hremotes =>
      split at h
      · cases h
      · next remote name hcut =>
        obtain ⟨rfl, hslash⟩ := Text.cut_singleton_eq_some_iff.1 hcut
        exact .inr ⟨remote, name, hslash, Text.dropStart?_eq_some_iff.1 hremotes⟩

end

/-- A branch is read from its own reference. -/
theorem ofRef?_reference {b : Branch} (h : b.Listable) : ofRef? b.reference = some b := by
  obtain ⟨name, remote?⟩ := b
  cases remote? with
  | none =>
    have hne : name.toList ≠ [] := by simpa using listable_localNamed.1 h
    show ofRef? (localNamed name).reference = some (localNamed name)
    rw [ofRef?_of_heads (toList_reference_localNamed name), if_neg hne, String.ofList_toList]
  | some remote =>
    obtain ⟨hslash, hname, hhead⟩ := listable_remoteNamed.1 h
    have hkept : ¬(name.toList = [] ∨ name.toList = "HEAD".toList) := by
      rw [String.toList_inj, String.toList_eq_nil_iff]
      exact not_or.2 ⟨hname, hhead⟩
    show ofRef? (remoteNamed remote name).reference = some (remoteNamed remote name)
    rw [ofRef?_of_remotes hslash (toList_reference_remoteNamed remote name), if_neg hkept,
      String.ofList_toList, String.ofList_toList]

/-- A reference stands for a branch exactly if it is the one of a branch that can be listed. -/
theorem ofRef?_eq_some_iff {ref : String} {b : Branch} :
    ofRef? ref = some b ↔ b.Listable ∧ ref = b.reference := by
  constructor
  · intro h
    rcases exists_of_ofRef? h with ⟨name, href⟩ | ⟨remote, name, hslash, href⟩
    · rw [ofRef?_of_heads href, Option.ite_none_left_eq_some] at h
      obtain ⟨hname, hb⟩ := h
      obtain rfl := Option.some.inj hb
      rw [listable_localNamed, ← String.toList_inj, toList_reference_localNamed, href]
      simpa using hname
    · rw [ofRef?_of_remotes hslash href, Option.ite_none_left_eq_some] at h
      obtain ⟨hkept, hb⟩ := h
      obtain rfl := Option.some.inj hb
      obtain ⟨hname, hhead⟩ := not_or.1 hkept
      rw [listable_remoteNamed, ← String.toList_inj, toList_reference_remoteNamed, href]
      rw [← String.toList_ofList (l := name), String.toList_inj] at hhead
      simpa using ⟨hslash, hname, hhead⟩
  · rintro ⟨hb, rfl⟩
    exact ofRef?_reference hb

end Branch

namespace Branches

/-! ### Snapshots of listed references -/

/-- The snapshot of the branches whose references are listed. -/
def ofRefs (current? : Option String) (refs : List String) : Branches :=
  of current? (refs.filterMap Branch.ofRef?)

variable {current? : Option String} {refs : List String} {name remote : String} {b : Branch}

/-- A snapshot holds the branches whose references are listed and no others. -/
theorem mem_ofRefs_iff :
    b ∈ (ofRefs current? refs).all ↔ b.Listable ∧ b.reference ∈ refs := by
  rw [ofRefs, mem_all_of, List.mem_filterMap]
  constructor
  · rintro ⟨ref, href, hread⟩
    obtain ⟨hb, rfl⟩ := Branch.ofRef?_eq_some_iff.1 hread
    exact ⟨hb, href⟩
  · rintro ⟨hb, href⟩
    exact ⟨_, href, Branch.ofRef?_reference hb⟩

/-- A list of references has the branch of a remote, other than a symbolic `HEAD`. -/
def Tracks (refs : List String) (remote name : String) : Prop :=
  '/' ∉ remote.toList ∧ name ≠ "" ∧ name ≠ "HEAD" ∧
    "refs/remotes/" ++ (remote ++ "/" ++ name) ∈ refs

theorem hasLocal_ofRefs_iff :
    (ofRefs current? refs).HasLocal name ↔ name ≠ "" ∧ "refs/heads/" ++ name ∈ refs := by
  rw [HasLocal, mem_ofRefs_iff, Branch.listable_localNamed]
  rfl

theorem carries_ofRefs_iff :
    (ofRefs current? refs).Carries remote name ↔ Tracks refs remote name := by
  rw [Carries, mem_ofRefs_iff, Branch.listable_remoteNamed, and_assoc, and_assoc]
  rfl

/-- Lists of the same references, in whatever order and however often, show the same snapshot. -/
theorem ofRefs_congr {refs' : List String} (h : ∀ ref, ref ∈ refs' ↔ ref ∈ refs) :
    ofRefs current? refs' = ofRefs current? refs := by
  have hall : (ofRefs current? refs').all = (ofRefs current? refs).all := by
    refine (Ordered.increasing_ofList Branch.order _).ext
      (Ordered.increasing_ofList Branch.order _) fun b => ?_
    show b ∈ (ofRefs current? refs').all ↔ b ∈ (ofRefs current? refs).all
    rw [mem_ofRefs_iff, mem_ofRefs_iff, h]
  simp only [ofRefs, of] at hall ⊢
  rw [hall]

/-! ### The remote that is found -/

/-- Of the remotes that carry something, the default one if it does, or else the least. -/
def IsPreferred (carries : String → Prop) (remote : String) : Prop :=
  carries remote ∧ (remote = Branch.defaultRemote ∨
    ¬carries Branch.defaultRemote ∧ ∀ other, carries other → remote ≤ other)

theorem IsPreferred.unique {carries : String → Prop} {remote' : String}
    (h : IsPreferred carries remote) (h' : IsPreferred carries remote') : remote = remote' := by
  obtain ⟨hcarries, rfl | ⟨hnone, hleast⟩⟩ := h <;>
    obtain ⟨hcarries', rfl | ⟨hnone', hleast'⟩⟩ := h'
  · rfl
  · exact absurd hcarries hnone'
  · exact absurd hcarries' hnone
  · exact le_antisymm (hleast _ hcarries') (hleast' _ hcarries)

/-- Where the default remote does not carry the name, the first candidate is found, and the branches
behind it are those of greater remotes. -/
theorem le_of_findRemote? {bs : Branches} (hbs : Ordered.Increasing Branch.order bs.all)
    (hfind : bs.findRemote? name = some (Branch.remoteNamed remote name))
    (hdefault : ¬bs.Carries Branch.defaultRemote name) {other : String}
    (hother : bs.Carries other name) : remote ≤ other := by
  have hcandidates : (bs.remotes.filter (·.name = name)).Pairwise fun a b => a.order b = .lt :=
    (hbs.filter _).filter _
  have hmem : Branch.remoteNamed other name ∈ bs.remotes.filter (·.name = name) :=
    List.mem_filter.2 ⟨List.mem_filter.2 ⟨hother, rfl⟩, decide_eq_true rfl⟩
  have hhead : (bs.remotes.filter (·.name = name)).head? = some (.remoteNamed remote name) := by
    simp only [findRemote?, Option.orElse_eq_orElse, Option.orElse_eq_or,
      Option.or_eq_some_iff] at hfind
    rcases hfind with hfind | ⟨-, hfind⟩
    · have hremote : remote = Branch.defaultRemote := by
        simpa [Branch.remoteNamed] using List.find?_some hfind
      obtain ⟨hremotes, -⟩ := List.mem_filter.1 (List.mem_of_find?_eq_some hfind)
      exact absurd (hremote ▸ (List.mem_filter.1 hremotes).1) hdefault
    · exact hfind
  obtain ⟨tail, hlist⟩ := List.head?_eq_some_iff.1 hhead
  rw [hlist] at hcandidates hmem
  rcases List.mem_cons.1 hmem with heq | hmem
  · obtain rfl : other = remote := by simpa [Branch.remoteNamed] using heq
    exact le_rfl
  · have hlt := (List.pairwise_cons.1 hcandidates).1 _ hmem
    rw [Branch.order, Branch.remoteNamed, Branch.remoteNamed, Std.ReflOrd.compare_self] at hlt
    exact (compare_lt_iff_lt.1 hlt).le

/-- A remote look-up finds the branch of the preferred remote among those that carry the name. -/
theorem findRemote?_eq_some_iff {bs : Branches} (hbs : Ordered.Increasing Branch.order bs.all) :
    bs.findRemote? name = some b ↔
      ∃ remote, IsPreferred (bs.Carries · name) remote ∧ b = Branch.remoteNamed remote name := by
  have hfound : ∀ {b}, bs.findRemote? name = some b →
      ∃ remote, IsPreferred (bs.Carries · name) remote ∧ b = Branch.remoteNamed remote name := by
    intro b hfind
    obtain ⟨remote, rfl, hcarries, hpreferred⟩ := exists_carries_of_findRemote? hfind
    refine ⟨remote, ⟨hcarries, ?_⟩, rfl⟩
    by_cases hdefault : bs.Carries Branch.defaultRemote name
    · exact .inl (hpreferred hdefault)
    · exact .inr ⟨hdefault, fun other => le_of_findRemote? hbs hfind hdefault⟩
  refine ⟨hfound, ?_⟩
  rintro ⟨remote, hpreferred, rfl⟩
  obtain ⟨b, hfind⟩ := Option.isSome_iff_exists.1 (isSome_findRemote?_iff.2 ⟨remote, hpreferred.1⟩)
  obtain ⟨remote', hpreferred', rfl⟩ := hfound hfind
  rw [hfind, hpreferred.unique hpreferred']

/-! ### Look-ups in what is listed -/

/-- What a snapshot shows is told by the references listed. -/
structure Shows (bs : Branches) (refs : List String) : Prop where
  /-- A local branch is found exactly if its reference is listed. -/
  found_local : ∀ name b, bs.findLocal? name = some b ↔
    b = Branch.localNamed name ∧ name ≠ "" ∧ "refs/heads/" ++ name ∈ refs
  /-- A remote branch is found exactly if the reference of some remote is listed. -/
  exists_remote : ∀ name, (bs.findRemote? name).isSome ↔ ∃ remote, Tracks refs remote name
  /-- The branch found is that of `origin`, or else that of the least remote. -/
  found_remote : ∀ name b, bs.findRemote? name = some b ↔
    ∃ remote, IsPreferred (Tracks refs · name) remote ∧ b = Branch.remoteNamed remote name
  /-- Of a name, the local branch is found first. -/
  found_first : ∀ name b, bs.find? name = some b ↔
    bs.findLocal? name = some b ∨ bs.findLocal? name = none ∧ bs.findRemote? name = some b
  /-- Every branch is local or remote, and is there once. -/
  parts : (bs.locals ++ bs.remotes).Perm bs.all ∧ bs.all.Nodup
  /-- The local branches are in order. -/
  locals : Ordered.Increasing Branch.order bs.locals ∧ ∀ b ∈ bs.locals, b.isRemote = false
  /-- The remote branches are in order. -/
  remotes : Ordered.Increasing Branch.order bs.remotes ∧ ∀ b ∈ bs.remotes, b.isRemote = true
  /-- The name that git takes for a start point is that of a reference listed. -/
  listed : ∀ b ∈ bs.all,
    (if b.isRemote then "refs/remotes/" else "refs/heads/") ++ b.trackingName ∈ refs

theorem shows_ofRefs (current? : Option String) (refs : List String) :
    (ofRefs current? refs).Shows refs := by
  have hall : Ordered.Increasing Branch.order (ofRefs current? refs).all :=
    Ordered.increasing_ofList Branch.order _
  have hcarries : ∀ name, ((ofRefs current? refs).Carries · name) = (Tracks refs · name) :=
    fun name => funext fun remote => propext carries_ofRefs_iff
  exact {
    found_local := fun name b => by
      rw [findLocal?_eq_some_iff, hasLocal_ofRefs_iff, and_comm]
    exists_remote := fun name => by
      rw [isSome_findRemote?_iff]
      exact exists_congr fun remote => carries_ofRefs_iff
    found_remote := fun name b => by
      rw [findRemote?_eq_some_iff hall, hcarries]
    found_first := fun name b => by
      rw [find?, Option.orElse_eq_orElse, Option.orElse_eq_or, Option.or_eq_some_iff]
    parts := ⟨by
      rw [Branches.locals, Branches.remotes]
      exact List.perm_append_comm.trans (List.filter_append_perm _ _), hall.nodup⟩
    locals := ⟨hall.filter _, fun b hb => by simpa using (List.mem_filter.1 hb).2⟩
    remotes := ⟨hall.filter _, fun b hb => (List.mem_filter.1 hb).2⟩
    listed := fun b hb => (mem_ofRefs_iff.1 hb).2 }

/-- **Looking branches up is told by the references listed.** For every list of references, the
snapshot read from it shows just what the list has (`Shows`), and every list of the same references,
in whatever order and however often, is read as the same snapshot. -/
theorem lookup_listed (current? : Option String) (refs : List String) :
    (ofRefs current? refs).Shows refs ∧
      ∀ refs', (∀ ref, ref ∈ refs' ↔ ref ∈ refs) → ofRefs current? refs' = ofRefs current? refs :=
  ⟨shows_ofRefs current? refs, fun _ => ofRefs_congr⟩

/-- Two remotes carry a name with a slash: the branch of `origin` is found, and the list is as good
the other way round. -/
theorem lookup_listed_of_two :
    let refs := ["refs/remotes/fork/release/2.0", "refs/heads/develop",
      "refs/remotes/origin/release/2.0", "refs/remotes/origin/HEAD"]
    (ofRefs none refs).findRemote? "release/2.0" = some (.remoteNamed "origin" "release/2.0") ∧
      ofRefs none refs.reverse = ofRefs none refs := by
  intro refs
  have hlisted := lookup_listed none refs
  have htracks : Tracks refs "origin" "release/2.0" := by
    unfold Tracks
    decide +kernel
  exact ⟨(hlisted.1.found_remote _ _).2 ⟨"origin", ⟨htracks, .inl rfl⟩, rfl⟩,
    hlisted.2 _ fun _ => List.mem_reverse⟩

end Branches

end Grove
