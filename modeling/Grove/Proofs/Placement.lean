import Grove.Proofs.Canonical

/-!
# Trees changed in one place

Where a path leads depends only on what kinds of nodes there are: a change where a file or nothing
is, to a file or nothing, leads no path elsewhere. And nodes put at locations that do not lead on to
each other can be put in either order.

## What is proved

* `get?_put_of_apart`, `put_comm` — what is put in one place leaves the others.
* `AgreeOff.put` — a node that holds nothing changes the kind of no other node.
* `follow_of_agreeOff` — paths lead to the same places in trees that differ by a file.
* `isFileLocation_of_follow` — where a path leads to a file or nothing, a file may be.
-/

namespace Grove

namespace Node

/-! ### Entries -/

theorem insertEntry_insertEntry_self (name : String) (x y : Node) (es : List (String × Node)) :
    insertEntry name x (insertEntry name y es) = insertEntry name x es := by
  induction es with
  | nil => simp [insertEntry]
  | cons e rest ih =>
    obtain ⟨n, z⟩ := e
    by_cases heq : name = n
    · simp [insertEntry, heq]
    · by_cases hlt : name < n <;> simp [insertEntry, heq, hlt, ih]

theorem insertEntry_comm_of_lt {name other : String} (hlt : name < other) (x y : Node)
    (es : List (String × Node)) :
    insertEntry name x (insertEntry other y es) = insertEntry other y (insertEntry name x es) := by
  have hne : name ≠ other := fun heq => String.lt_irrefl other (heq ▸ hlt)
  have hge : ¬other < name := String.lt_asymm hlt
  induction es with
  | nil => simp [insertEntry, hne, hne.symm, hlt, hge]
  | cons e rest ih =>
    obtain ⟨n, z⟩ := e
    rcases Std.lt_trichotomy other n with hbefore | rfl | hafter
    · have hfirst : name < n := String.lt_trans hlt hbefore
      have hother : other ≠ n := fun heq => String.lt_irrefl n (heq ▸ hbefore)
      have hname : name ≠ n := fun heq => String.lt_irrefl n (heq ▸ hfirst)
      simp [insertEntry, hne, hne.symm, hlt, hge, hbefore, hfirst, hother, hname]
    · simp [insertEntry, hne, hne.symm, hlt, hge]
    · have hother : other ≠ n := fun heq => String.lt_irrefl n (heq ▸ hafter)
      have hlater : ¬other < n := String.lt_asymm hafter
      by_cases heq : name = n
      · simp [insertEntry, heq, hother, hlater]
      · by_cases hfirst : name < n <;>
          simp [insertEntry, heq, hfirst, hother, hlater, hne.symm, hge, ih]

/-- Entries of different names can be put in either order. -/
theorem insertEntry_comm {name other : String} (hne : name ≠ other) (x y : Node)
    (es : List (String × Node)) :
    insertEntry name x (insertEntry other y es) = insertEntry other y (insertEntry name x es) := by
  rcases Std.lt_trichotomy name other with hlt | heq | hgt
  · exact insertEntry_comm_of_lt hlt x y es
  · exact absurd heq hne
  · exact (insertEntry_comm_of_lt hgt y x es).symm

/-! ### Nodes put at locations -/

/-- Neither location leads on to the other. -/
def Apart (loc loc' : Location) : Prop :=
  ¬loc <+: loc' ∧ ¬loc' <+: loc

theorem get?_put_of_apart {loc l : Location} (h : Apart loc l) (top new : Node) :
    (top.put loc new).get? l = top.get? l := by
  induction loc generalizing top l with
  | nil => exact absurd (List.nil_prefix) h.1
  | cons name rest ih =>
    cases l with
    | nil => exact absurd (List.nil_prefix) h.2
    | cons name' rest' =>
      rw [put, get?]
      by_cases hname : name' = name
      · subst hname
        have hrest : Apart rest rest' := by simpa [Apart] using h
        rw [lookup_insertEntry_self, Option.bind_some, ih hrest]
        cases top with
        | directory es =>
          rw [get?, entries]
          cases hl : es.lookup name' with
          | none => cases rest' <;> simp_all [get?, emptyDirectory, Apart]
          | some child => simp
        | file content executable =>
          cases rest' <;> simp_all [get?, emptyDirectory, Apart, entries]
        | link target => cases rest' <;> simp_all [get?, emptyDirectory, Apart, entries]
      · rw [lookup_insertEntry_of_ne hname]
        cases top <;> simp [get?, entries]

/-- What is put at locations that are apart can be put there in either order. -/
theorem put_comm {loc loc' : Location} (h : Apart loc loc') (top new new' : Node) :
    (top.put loc' new').put loc new = (top.put loc new).put loc' new' := by
  induction loc generalizing top loc' with
  | nil => exact absurd (List.nil_prefix) h.1
  | cons name rest ih =>
    cases loc' with
    | nil => exact absurd (List.nil_prefix) h.2
    | cons name' rest' =>
      simp only [put, entries]
      by_cases hname : name = name'
      · subst hname
        have hrest : Apart rest rest' := by simpa [Apart] using h
        simp only [lookup_insertEntry_self, insertEntry_insertEntry_self, Option.getD_some,
          ih hrest]
      · rw [lookup_insertEntry_of_ne hname, lookup_insertEntry_of_ne (Ne.symm hname),
          insertEntry_comm hname]

/-! ### Kinds of nodes -/

/-- What a node is, whatever it holds. -/
inductive Kind where
  /-- A file. -/
  | file
  /-- A directory. -/
  | directory
  /-- A link to a path. -/
  | link (target : Path)

/-- What the node is. -/
def kind : Node → Kind
  | .file .. => .file
  | .directory _ => .directory
  | .link target => .link target

/-- What is at a location. -/
def kindAt (top : Node) (loc : Location) : Option Kind :=
  (top.get? loc).map kind

variable {top top' : Node} {loc l : Location}

theorem kindAt_eq_directory_iff :
    top.kindAt loc = some .directory ↔ ∃ es, top.get? loc = some (.directory es) := by
  rw [kindAt, Option.map_eq_some_iff]
  constructor
  · rintro ⟨n, hn, hkind⟩
    cases n <;> simp_all [kind]
  · rintro ⟨es, hes⟩
    exact ⟨_, hes, rfl⟩

theorem kindAt_concat {es : List (String × Node)} {name : String}
    (hdir : top.get? loc = some (.directory es)) :
    top.kindAt (loc ++ [name]) = (es.lookup name).map kind := by
  rw [kindAt, get?_append, hdir, Option.bind_some, get?]
  cases es.lookup name <;> rfl

/-- What leads on is a directory. -/
theorem kindAt_prefix_of_isSome (hstart : l <+: loc) (hne : l ≠ loc)
    (h : (top.get? loc).isSome = true) : top.kindAt l = some .directory := by
  obtain ⟨rest, rfl⟩ := hstart
  obtain ⟨name, rest, rfl⟩ := List.exists_cons_of_ne_nil (l := rest) (by simpa using hne)
  rw [get?_append] at h
  cases hl : top.get? l with
  | none => simp [hl] at h
  | some n => cases n <;> simp_all [kindAt, kind, get?]

theorem kindAt_prefix_of_directory (hstart : l <+: loc) (h : top.kindAt loc = some .directory) :
    top.kindAt l = some .directory := by
  by_cases hsame : l = loc
  · rw [hsame, h]
  · obtain ⟨es, hes⟩ := kindAt_eq_directory_iff.1 h
    exact kindAt_prefix_of_isSome hstart hsame (by rw [hes]; rfl)

/-- A file may be at the location: nothing or a file is there. -/
def IsFree (top : Node) (loc : Location) : Prop :=
  top.kindAt loc = none ∨ top.kindAt loc = some .file

theorem not_isFree_of_directory (h : top.kindAt loc = some .directory) : ¬top.IsFree loc := by
  intro hfree
  rcases hfree with hfree | hfree <;> simp [h] at hfree

/-- Two trees have nodes of the same kinds but for one location, where the first has a file or
nothing. -/
structure AgreeOff (loc : Location) (top top' : Node) : Prop where
  elsewhere : ∀ l ≠ loc, top'.kindAt l = top.kindAt l
  free : top.IsFree loc

theorem AgreeOff.symm (h : AgreeOff loc top top') (hfree : top'.IsFree loc) :
    AgreeOff loc top' top :=
  ⟨fun l hl => (h.elsewhere l hl).symm, hfree⟩

theorem kind_eq_link_iff {n : Node} {target : Path} : n.kind = .link target ↔ n = .link target := by
  cases n <;> simp [kind]

/-- The entries of a directory are of the same kinds but for those at one location, which is no
link. -/
structure SameKinds (loc dir : Location) (es es' : List (String × Node)) : Prop where
  none : ∀ {name}, dir ++ [name] ≠ loc → es.lookup name = none → es'.lookup name = none
  link : ∀ {name target}, es.lookup name = some (.link target) →
    es'.lookup name = some (.link target)
  other : ∀ {name n}, dir ++ [name] ≠ loc → es.lookup name = some n →
    (∀ target, n = .link target → False) →
    ∃ n', es'.lookup name = some n' ∧ ∀ target, n' ≠ .link target

/-- A directory is one in either tree, with entries of the same kinds. -/
theorem AgreeOff.exists_directory (h : AgreeOff loc top top') {es : List (String × Node)}
    (hdir : top.get? l = some (.directory es)) :
    ∃ es', top'.get? l = some (.directory es') ∧ SameKinds loc l es es' := by
  have hkind : top.kindAt l = some .directory := kindAt_eq_directory_iff.2 ⟨es, hdir⟩
  have hne : l ≠ loc := by
    rintro rfl
    exact not_isFree_of_directory hkind h.free
  obtain ⟨es', hdir'⟩ := kindAt_eq_directory_iff.1 ((h.elsewhere l hne).trans hkind)
  have hkinds : ∀ name, l ++ [name] ≠ loc →
      (es'.lookup name).map kind = (es.lookup name).map kind := fun name hname => by
    rw [← kindAt_concat hdir, ← kindAt_concat hdir', h.elsewhere _ hname]
  refine ⟨es', hdir', ?_, ?_, ?_⟩
  · intro name hname hnone
    simpa [hnone] using hkinds name hname
  · intro name target hlink
    have hname : l ++ [name] ≠ loc := by
      rintro rfl
      rcases h.free with hfree | hfree <;> simp [kindAt_concat hdir, hlink, kind] at hfree
    have hkind := hkinds name hname
    rw [hlink] at hkind
    obtain ⟨n, hn, hkind⟩ := Option.map_eq_some_iff.1 hkind
    rw [hn, kind_eq_link_iff.1 hkind]
  · intro name n hname hn hlink
    have hkind := hkinds name hname
    rw [hn] at hkind
    obtain ⟨n', hn', hkind⟩ := Option.map_eq_some_iff.1 hkind
    refine ⟨n', hn', ?_⟩
    rintro target rfl
    exact hlink target (kind_eq_link_iff.1 hkind.symm)

/-- A location in a directory where a file may be. -/
structure IsFileLocation (top : Node) (loc : Location) : Prop where
  free : top.IsFree loc
  inside : ∃ dir name, loc = dir ++ [name] ∧ top.kindAt dir = some .directory

/-- A node that holds nothing changes no other node where it is put. -/
theorem AgreeOff.put (h : IsFileLocation top loc) {new : Node}
    (hnew : ∀ name rest, new.get? (name :: rest) = none) : AgreeOff loc top (top.put loc new) := by
  have hput : (top.put loc new).get? loc = some new := get?_put_self ..
  refine ⟨fun l hl => ?_, h.free⟩
  by_cases habove : l <+: loc
  · obtain ⟨dir, name, rfl, hdir⟩ := h.inside
    rw [kindAt_prefix_of_isSome habove hl (by rw [hput]; rfl)]
    rcases List.prefix_concat_iff.1 habove with rfl | habove
    · exact absurd rfl hl
    · exact (kindAt_prefix_of_directory habove hdir).symm
  · by_cases hbelow : loc <+: l
    · have hbefore : top.kindAt l = none := by
        by_contra hsome
        have hdir : top.kindAt loc = some .directory := kindAt_prefix_of_isSome hbelow (Ne.symm hl)
          (by cases ht : top.get? l <;> simp_all [kindAt])
        exact not_isFree_of_directory hdir h.free
      obtain ⟨rest, rfl⟩ := hbelow
      obtain ⟨name, rest, rfl⟩ := List.exists_cons_of_ne_nil (l := rest) (by simpa using hl)
      rw [hbefore, kindAt, get?_append, hput, Option.bind_some, hnew]
      rfl
    · rw [kindAt, kindAt, get?_put_of_apart ⟨hbelow, habove⟩]

/-- Locations for files are apart if they are different. -/
theorem IsFileLocation.apart {loc' : Location} (h : IsFileLocation top loc)
    (h' : IsFileLocation top loc') (hne : loc ≠ loc') : Apart loc loc' := by
  have key : ∀ {l l' : Location}, top.IsFree l → IsFileLocation top l' → l ≠ l' → ¬l <+: l' := by
    intro l l' hfree h' hne hstart
    obtain ⟨dir, name, rfl, hdir⟩ := h'.inside
    rcases List.prefix_concat_iff.1 hstart with rfl | hstart
    · exact hne rfl
    · exact not_isFree_of_directory (kindAt_prefix_of_directory hstart hdir) hfree
  exact ⟨key h.free h' hne, key h'.free h hne.symm⟩

end Node

namespace Files

open Node

/-! ### Where paths lead after a change -/

/-- Where there is no directory there is no way on. -/
theorem eq_of_follow_isFree {top : Node} {through : Bool} {links : Nat} {loc : Location}
    {steps : List String} {place : Place} (hfree : top.IsFree loc)
    (h : follow top through links loc steps = .ok place) : steps = [] ∧ place = ⟨loc, true⟩ := by
  cases steps with
  | nil =>
    rw [follow] at h
    exact ⟨rfl, (Except.ok.inj h).symm⟩
  | cons step rest =>
    rw [follow] at h
    rcases hfree with hnone | hfile
    · have hnone : top.get? loc = none := by simpa [kindAt] using hnone
      simp [hnone] at h
    · obtain ⟨n, hn, hkind⟩ := Option.map_eq_some_iff.1 hfile
      cases n <;> simp_all [kind]

/-- A path leads to the same place in trees that agree elsewhere, and to a file that is there. -/
theorem follow_of_agreeOff {top top' : Node} {loc : Location} (hagree : AgreeOff loc top top')
    (hafter : top'.IsFree loc) {through : Bool} {links : Nat} {from_ : Location}
    {steps : List String} {place : Place}
    (h : follow top through links from_ steps = .ok place)
    (hend : place.location ≠ loc ∨ top.kindAt loc = some .file) :
    ∃ present, follow top' through links from_ steps = .ok ⟨place.location, present⟩ := by
  fun_induction follow top through links from_ steps with
  | case1 =>
    obtain rfl := Except.ok.inj h
    exact ⟨true, by rw [follow]⟩
  | case3 _ _ _ _ _ hdir hnoise ih =>
    obtain ⟨es', hdir', -⟩ := hagree.exists_directory hdir
    rw [follow, hdir']
    simpa [hnoise] using ih h
  | case4 links from_ rest es hdir hnoise ih =>
    obtain ⟨es', hdir', -⟩ := hagree.exists_directory hdir
    rw [follow, hdir']
    simpa [hnoise] using ih h
  | case7 links from_ step rest es hdir hnoise hup hlong hnul hentry hrest =>
    obtain rfl := Except.ok.inj h
    obtain ⟨es', hdir', hentries⟩ := hagree.exists_directory hdir
    have hne : from_ ++ [step] ≠ loc := by
      rintro rfl
      simp [kindAt_concat hdir, hentry] at hend
    have hentry' := hentries.none hne hentry
    refine ⟨false, ?_⟩
    rw [follow, hdir']
    simp only [hnoise, hup, hlong, hnul, hentry', hrest, Bool.false_eq_true, if_false, if_true]
  | case9 links from_ step rest es hdir hnoise hup hlong hnul target hentry hlast =>
    obtain rfl := Except.ok.inj h
    obtain ⟨es', hdir', hentries⟩ := hagree.exists_directory hdir
    have hentry' := hentries.link hentry
    refine ⟨true, ?_⟩
    rw [follow, hdir']
    simp only [hnoise, hup, hlong, hnul, hentry', hlast, Bool.false_eq_true, if_false, and_self,
      if_true]
  | case11 from_ step rest es hdir hnoise hup hlong hnul target hentry hlast links ih =>
    obtain ⟨es', hdir', hentries⟩ := hagree.exists_directory hdir
    obtain ⟨present, hplace⟩ := ih h
    refine ⟨present, ?_⟩
    rw [follow, hdir']
    simp only [hnoise, hup, hlong, hnul, hentries.link hentry, hlast, Bool.false_eq_true, if_false]
    exact hplace
  | case12 links from_ step rest es hdir hnoise hup hlong hnul n hlink hentry ih =>
    obtain ⟨es', hdir', hentries⟩ := hagree.exists_directory hdir
    rw [follow, hdir']
    simp only [hnoise, hup, hlong, hnul, Bool.false_eq_true, if_false]
    by_cases hloc : from_ ++ [step] = loc
    · subst hloc
      obtain ⟨rfl, rfl⟩ := eq_of_follow_isFree hagree.free h
      rw [IsFree, kindAt_concat hdir'] at hafter
      cases hentry' : es'.lookup step with
      | none => exact ⟨false, rfl⟩
      | some n' =>
        cases n' with
        | file content executable => exact ⟨true, by simp only [follow]⟩
        | directory es => simp [hentry', kind] at hafter
        | link target => simp [hentry', kind] at hafter
    · obtain ⟨n', hentry', hlink'⟩ := hentries.other hloc hentry hlink
      rw [hentry']
      cases n' with
      | link target => exact absurd rfl (hlink' target)
      | file content executable => exact ih h
      | directory es => exact ih h
  | _ => simp at h

/-- Where a path leads that leads to a file or to nothing, there is a directory for it. -/
theorem isFileLocation_of_follow {top : Node} {through : Bool} {links : Nat} {from_ : Location}
    {steps : List String} {place : Place}
    (hfrom : top.IsFree from_ → IsFileLocation top from_)
    (h : follow top through links from_ steps = .ok place) (hfree : top.IsFree place.location) :
    IsFileLocation top place.location := by
  fun_induction follow top through links from_ steps with
  | case1 =>
    obtain rfl := Except.ok.inj h
    exact hfrom hfree
  | case3 links from_ step rest es hdir hnoise ih => exact ih hfrom h
  | case4 links from_ rest es hdir hnoise ih =>
    refine ih (fun hfree' => absurd hfree' (not_isFree_of_directory ?_)) h
    exact kindAt_prefix_of_directory (List.dropLast_prefix _) (kindAt_eq_directory_iff.2 ⟨es, hdir⟩)
  | case7 links from_ step rest es hdir =>
    obtain rfl := Except.ok.inj h
    exact ⟨hfree, from_, step, rfl, kindAt_eq_directory_iff.2 ⟨es, hdir⟩⟩
  | case9 links from_ step rest es hdir =>
    obtain rfl := Except.ok.inj h
    exact ⟨hfree, from_, step, rfl, kindAt_eq_directory_iff.2 ⟨es, hdir⟩⟩
  | case11 from_ step rest es hdir hnoise hup hlong hnul target hentry hlast links ih =>
    refine ih ?_ h
    split
    · intro hfree'
      refine absurd hfree' (not_isFree_of_directory ?_)
      exact kindAt_prefix_of_directory List.nil_prefix (kindAt_eq_directory_iff.2 ⟨es, hdir⟩)
    · exact hfrom
  | case12 links from_ step rest es hdir hnoise hup hlong hnul n hlink hentry ih =>
    exact ih (fun hfree' => ⟨hfree', from_, step, rfl, kindAt_eq_directory_iff.2 ⟨es, hdir⟩⟩) h
  | _ => simp at h

theorem isFileLocation_of_pieces {top : Node} {through : Bool} {links : Nat} {from_ : Location}
    {p : Path} {place : Place} (hne : p.components ≠ [])
    (h : follow top through links from_ p.pieces = .ok place) (hfree : top.IsFree place.location) :
    IsFileLocation top place.location := by
  refine isFileLocation_of_follow (fun hfrom => ?_) h hfree
  -- the path has a step, and that needs a directory to start from
  have hnil : p.pieces = [] := (eq_of_follow_isFree hfrom h).1
  simp [Path.components, hnil] at hne

/-- Where a path leads to nothing, there is nothing. -/
theorem kindAt_of_follow_absent {top : Node} {through : Bool} {links : Nat} {from_ : Location}
    {steps : List String} {loc : Location}
    (h : follow top through links from_ steps = .ok ⟨loc, false⟩) : top.kindAt loc = none := by
  fun_induction follow top through links from_ steps with
  | case3 _ _ _ _ _ _ _ ih => exact ih h
  | case4 _ _ _ _ _ _ ih => exact ih h
  | case7 links from_ step rest es hdir hnoise hup hlong hnul hentry =>
    obtain rfl := (Place.mk.inj (Except.ok.inj h)).1
    rw [kindAt_concat hdir, hentry]
    rfl
  | case11 _ _ _ _ _ _ _ _ _ _ _ _ _ ih => exact ih h
  | case12 _ _ _ _ _ _ _ _ _ _ _ _ _ ih => exact ih h
  | _ => simp at h

theorem follow_noise {top : Node} {through : Bool} {links : Nat} {loc : Location}
    {rest : List String} (hloc : top.kindAt loc = some .directory)
    (hrest : rest.all Path.isNoise = true) :
    follow top through links loc rest = .ok ⟨loc, true⟩ := by
  obtain ⟨es, hdir⟩ := kindAt_eq_directory_iff.1 hloc
  induction rest with
  | nil => rw [follow]
  | cons step rest ih =>
    rw [List.all_cons, Bool.and_eq_true] at hrest
    rw [follow, hdir]
    simp only [hrest.1, if_true, ih hrest.2]

/-- A path leads to the directory that is made where it led to nothing. -/
theorem follow_of_made {top top' : Node} {loc : Location} (hagree : AgreeOff loc top top')
    (hnone : top.kindAt loc = none) (hmade : top'.kindAt loc = some .directory) {links : Nat}
    {from_ : Location} {steps : List String}
    (h : follow top false links from_ steps = .ok ⟨loc, false⟩) :
    follow top' true links from_ steps = .ok ⟨loc, true⟩ := by
  fun_induction follow top false links from_ steps with
  | case3 links from_ step rest es hdir hnoise ih =>
    obtain ⟨es', hdir', -⟩ := hagree.exists_directory hdir
    rw [follow, hdir']
    simpa [hnoise] using ih h
  | case4 links from_ rest es hdir hnoise ih =>
    obtain ⟨es', hdir', -⟩ := hagree.exists_directory hdir
    rw [follow, hdir']
    simpa [hnoise] using ih h
  | case7 links from_ step rest es hdir hnoise hup hlong hnul hentry hrest =>
    obtain rfl := (Place.mk.inj (Except.ok.inj h)).1
    obtain ⟨es', hdir', -⟩ := hagree.exists_directory hdir
    have hend : follow top' true links (from_ ++ [step]) rest = _ := follow_noise hmade hrest
    rw [kindAt_concat hdir'] at hmade
    obtain ⟨n, hentry', hkind⟩ := Option.map_eq_some_iff.1 hmade
    rw [follow, hdir']
    simp only [hnoise, hup, hlong, hnul, hentry', Bool.false_eq_true, if_false]
    cases n <;> simp_all [kind]
  | case11 from_ step rest es hdir hnoise hup hlong hnul target hentry hlast links ih =>
    obtain ⟨es', hdir', hentries⟩ := hagree.exists_directory hdir
    rw [follow, hdir']
    simp only [hnoise, hup, hlong, hnul, hentries.link hentry, Bool.false_eq_true, if_false,
      Bool.true_eq_false, and_false]
    exact ih h
  | case12 links from_ step rest es hdir hnoise hup hlong hnul n hlink hentry ih =>
    obtain ⟨es', hdir', hentries⟩ := hagree.exists_directory hdir
    have hne : from_ ++ [step] ≠ loc := by
      rintro rfl
      simp [kindAt_concat hdir, hentry] at hnone
    obtain ⟨n', hentry', hlink'⟩ := hentries.other hne hentry hlink
    rw [follow, hdir']
    simp only [hnoise, hup, hlong, hnul, hentry', Bool.false_eq_true, if_false]
    cases n' with
    | link target => exact absurd rfl (hlink' target)
    | file content executable => exact ih h
    | directory es => exact ih h
  | _ => simp at h

/-- What a path leads to is there, or a link to it is. -/
theorem exists_follow_false {top : Node} {links : Nat} {from_ : Location} {steps : List String}
    {place : Place} (h : follow top true links from_ steps = .ok place)
    (hsome : (top.get? place.location).isSome = true) :
    ∃ loc, follow top false links from_ steps = .ok ⟨loc, true⟩ := by
  fun_induction follow top true links from_ steps with
  | case1 links from_ => exact ⟨from_, by rw [follow]⟩
  | case3 links from_ step rest es hdir hnoise ih =>
    rw [follow, hdir]
    simpa [hnoise] using ih h
  | case4 links from_ rest es hdir hnoise ih =>
    rw [follow, hdir]
    simpa [hnoise] using ih h
  | case7 links from_ step rest es hdir hnoise hup hlong hnul hentry hrest =>
    obtain rfl := Except.ok.inj h
    rw [get?_append, hdir] at hsome
    simp [get?, hentry] at hsome
  | case9 links from_ step rest es hdir hnoise hup hlong hnul target hentry hlast =>
    simp at hlast
  | case11 from_ step rest es hdir hnoise hup hlong hnul target hentry hlast links ih =>
    rw [follow, hdir]
    simp only [hnoise, hup, hlong, hnul, hentry, Bool.false_eq_true, if_false]
    by_cases hrest : rest = []
    · exact ⟨from_ ++ [step], by simp only [hrest, and_self, if_true]⟩
    · simp only [hrest, false_and, if_false]
      exact ih h
  | case12 links from_ step rest es hdir hnoise hup hlong hnul n hlink hentry ih =>
    rw [follow, hdir]
    simp only [hnoise, hup, hlong, hnul, hentry, Bool.false_eq_true, if_false]
    cases n with
    | link target => exact absurd rfl (hlink target)
    | file content executable => exact ih h
    | directory es => exact ih h
  | _ => simp at h

end Files

end Grove
