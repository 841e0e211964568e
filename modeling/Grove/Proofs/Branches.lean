import Grove.Git.Recorder

/-!
# Looking branches up

What a look-up in a snapshot finds and when it finds nothing, whatever the order in which the
branches were listed: a snapshot holds the branches of the list and no others (`mem_all_of`), and a
name is found as a remote branch only where no local branch has it (`find?_eq_some`). Among the
remotes that carry a name the default one is preferred (`exists_carries_of_findRemote?`).
-/

namespace Grove

namespace Branches

/-- A snapshot holds the branches that were listed. -/
theorem mem_all_of {current? : Option String} {listed : List Branch} {b : Branch} :
    b ∈ (Branches.of current? listed).all ↔ b ∈ listed :=
  Ordered.mem_ofList_iff Branch.order

variable {bs : Branches} {name : String} {b : Branch}

theorem findLocal?_eq_some (h : bs.findLocal? name = some b) :
    b ∈ bs.all ∧ b.isRemote = false ∧ b.name = name := by
  have hname := List.find?_some h
  have hmem := List.mem_of_find?_eq_some h
  simp only [locals, List.mem_filter, Bool.not_eq_true'] at hmem
  exact ⟨hmem.1, hmem.2, by simpa using hname⟩

theorem findLocal?_eq_none_iff :
    bs.findLocal? name = none ↔ ∀ b ∈ bs.all, b.isRemote = false → b.name ≠ name := by
  simp [findLocal?, locals, List.find?_eq_none]

theorem findRemote?_eq_some (h : bs.findRemote? name = some b) :
    b ∈ bs.all ∧ b.isRemote = true ∧ b.name = name := by
  have hmem : b ∈ bs.remotes.filter (·.name = name) := by
    simp only [findRemote?, Option.orElse_eq_orElse, Option.orElse_eq_or,
      Option.or_eq_some_iff] at h
    rcases h with h | ⟨-, h⟩
    · exact List.mem_of_find?_eq_some h
    · exact List.mem_of_head? h
  simp only [remotes, List.mem_filter, decide_eq_true_eq] at hmem
  exact ⟨hmem.1.1, hmem.1.2, hmem.2⟩

/-- A look-up finds a branch of the name, a remote one only where none is local. -/
theorem find?_eq_some (h : bs.find? name = some b) :
    b ∈ bs.all ∧ b.name = name ∧
      (b.isRemote = true ↔ ∀ b' ∈ bs.all, b'.isRemote = false → b'.name ≠ name) := by
  simp only [find?, Option.orElse_eq_orElse, Option.orElse_eq_or, Option.or_eq_some_iff] at h
  rcases h with h | ⟨hnone, h⟩
  · obtain ⟨hmem, hlocal, hname⟩ := findLocal?_eq_some h
    refine ⟨hmem, hname, ?_⟩
    simp only [hlocal, Bool.false_eq_true, false_iff]
    exact fun hall => hall b hmem hlocal hname
  · obtain ⟨hmem, hremote, hname⟩ := findRemote?_eq_some h
    exact ⟨hmem, hname, iff_of_true hremote (findLocal?_eq_none_iff.1 hnone)⟩

/-! ### Which branches a snapshot has -/

/-- A snapshot has a local branch of the name. -/
def HasLocal (bs : Branches) (name : String) : Prop :=
  Branch.localNamed name ∈ bs.all

/-- A snapshot has a branch of the name that the remote carries. -/
def Carries (bs : Branches) (remote name : String) : Prop :=
  Branch.remoteNamed remote name ∈ bs.all

/-- A snapshot has a branch of the name, local or remote. -/
def Has (bs : Branches) (name : String) : Prop :=
  bs.HasLocal name ∨ ∃ remote, bs.Carries remote name

theorem findLocal?_eq_some_iff :
    bs.findLocal? name = some b ↔ bs.HasLocal name ∧ b = Branch.localNamed name := by
  have hfound : ∀ {b}, bs.findLocal? name = some b → bs.HasLocal name ∧ b = .localNamed name := by
    intro b hfind
    obtain ⟨hmem, hlocal, rfl⟩ := findLocal?_eq_some hfind
    obtain ⟨name, remote?⟩ := b
    obtain rfl : remote? = none := by simpa [Branch.isRemote] using hlocal
    exact ⟨hmem, rfl⟩
  refine ⟨hfound, ?_⟩
  rintro ⟨hlocal, rfl⟩
  cases hfind : bs.findLocal? name with
  | some b => rw [(hfound hfind).2]
  | none => exact absurd rfl (findLocal?_eq_none_iff.1 hfind _ hlocal rfl)

/-- A remote look-up finds a branch that a remote carries, that of the default remote if it
carries one. -/
theorem exists_carries_of_findRemote? (h : bs.findRemote? name = some b) :
    ∃ remote, b = Branch.remoteNamed remote name ∧ bs.Carries remote name ∧
      (bs.Carries Branch.defaultRemote name → remote = Branch.defaultRemote) := by
  obtain ⟨hmem, hremote, rfl⟩ := findRemote?_eq_some h
  obtain ⟨name, remote?⟩ := b
  obtain ⟨remote, rfl⟩ := Option.isSome_iff_exists.1 hremote
  refine ⟨remote, rfl, hmem, fun hdefault => ?_⟩
  have hcandidate : Branch.remoteNamed Branch.defaultRemote name ∈
      bs.remotes.filter (·.name = name) :=
    List.mem_filter.2 ⟨List.mem_filter.2 ⟨hdefault, rfl⟩, decide_eq_true rfl⟩
  simp only [findRemote?, Option.orElse_eq_orElse, Option.orElse_eq_or,
    Option.or_eq_some_iff] at h
  rcases h with h | ⟨hnone, -⟩
  · simpa using List.find?_some h
  · exact absurd (decide_eq_true rfl) (List.find?_eq_none.1 hnone _ hcandidate)

theorem isSome_findRemote?_iff :
    (bs.findRemote? name).isSome ↔ ∃ remote, bs.Carries remote name := by
  constructor
  · intro h
    obtain ⟨b, hfind⟩ := Option.isSome_iff_exists.1 h
    obtain ⟨remote, -, hcarries, -⟩ := exists_carries_of_findRemote? hfind
    exact ⟨remote, hcarries⟩
  · rintro ⟨remote, hcarries⟩
    have hcandidate : Branch.remoteNamed remote name ∈ bs.remotes.filter (·.name = name) :=
      List.mem_filter.2 ⟨List.mem_filter.2 ⟨hcarries, rfl⟩, decide_eq_true rfl⟩
    simp only [findRemote?, Option.orElse_eq_orElse, Option.orElse_eq_or, Option.isSome_or,
      List.isSome_head?, Bool.or_eq_true]
    exact .inr (by simpa using List.ne_nil_of_mem hcandidate)

theorem find?_of_hasLocal (h : bs.HasLocal name) :
    bs.find? name = some (Branch.localNamed name) := by
  simp [find?, findLocal?_eq_some_iff.2 ⟨h, rfl⟩]

theorem find?_of_not_hasLocal (h : ¬bs.HasLocal name) : bs.find? name = bs.findRemote? name := by
  have hnone : bs.findLocal? name = none :=
    Option.eq_none_iff_forall_ne_some.2 fun _ hfind => h (findLocal?_eq_some_iff.1 hfind).1
  simp [find?, hnone]

theorem isSome_find?_iff : (bs.find? name).isSome ↔ bs.Has name := by
  by_cases hlocal : bs.HasLocal name
  · simp [find?_of_hasLocal hlocal, Has, hlocal]
  · rw [find?_of_not_hasLocal hlocal, isSome_findRemote?_iff]
    simp [Has, hlocal]

end Branches

namespace Git.Repo

/-- A record as it is kept: its sets are in order without repetition, and the branches beside those
of the default remote belong to remotes. -/
structure WellFormed (repo : Repo) : Prop where
  locals : Ordered.Increasing compare repo.locals
  remotes : Ordered.Increasing compare repo.remotes
  tags : Ordered.Increasing compare repo.tags
  others : ∀ b ∈ repo.others, b.isRemote = true

/-- The branches of a record as a snapshot. -/
def snapshot (repo : Repo) : Branches :=
  Branches.of repo.current? repo.branches

theorem mem_withName {name n : String} {names : List String} :
    n ∈ withName name names ↔ n = name ∨ n ∈ names :=
  Ordered.mem_insert_iff compare

/-- The local branches of a snapshot are those of the record. -/
theorem exists_local_iff {repo : Repo} (h : repo.WellFormed) {name : String} :
    (∃ b ∈ repo.snapshot.all, b.isRemote = false ∧ b.name = name) ↔ name ∈ repo.locals := by
  simp only [snapshot, Branches.mem_all_of, branches, List.mem_append, List.mem_map]
  constructor
  · rintro ⟨b, (⟨n, hn, rfl⟩ | ⟨n, hn, rfl⟩) | hb, hlocal, rfl⟩
    · exact hn
    · simp [Branch.remoteNamed, Branch.isRemote] at hlocal
    · rw [h.others b hb] at hlocal
      exact absurd hlocal (by simp)
  · exact fun hn => ⟨Branch.localNamed name, .inl (.inl ⟨name, hn, rfl⟩), rfl, rfl⟩

/-- A branch looked up in a snapshot is remote exactly where the record has no local one. -/
theorem isRemote_of_find? {repo : Repo} (h : repo.WellFormed) {name : String} {b : Branch}
    (hb : repo.snapshot.find? name = some b) :
    b.name = name ∧ (b.isRemote = true ↔ name ∉ repo.locals) := by
  obtain ⟨-, hname, hremote⟩ := Branches.find?_eq_some hb
  refine ⟨hname, ?_⟩
  rw [hremote, ← exists_local_iff h]
  simp

end Git.Repo

end Grove
