import Mathlib.Data.List.Nodup
import Grove.Proofs.Trees
import Grove.Walk.Basic

/-!
# Where a walk of a workspace gets

In a tree where every entry has a proper name and each name is there once, a walk comes across
exactly what can be reached from the root through entries that it takes in: those that are not
hidden, directories of certain names aside. It comes across each of them once. The order depends on
the machine, so what follows from a walk is said of every list that delivers its sights.

## What is proved

* `apart_sights` — whatever the options, as long as links are not followed, a walk comes across
  everything once.
* `mem_below` — what is walked below a directory of a workspace.
* `exists_delivers` — walking a directory delivers what can be reached from it.
* `Delivers.perm` — two walks of a directory differ in the order only.
-/

namespace Grove

/-! ### What can be reached -/

namespace Walk

/-- Whether a walk of a workspace takes an entry in: it is not hidden, and no directory of a name
that is passed over. -/
def takesIn (name : String) (node : Node) : Bool :=
  name.toList.head? ≠ some '.' && !(node.isDirectory && name ∈ WalkOptions.workspace.skip)

/-- The node at a location, when all entries on the way there are taken in. -/
def reach? : Location → Node → Option Node
  | [], node => some node
  | name :: rest, .directory es =>
    (es.lookup name).bind fun node => if takesIn name node then reach? rest node else none
  | _ :: _, _ => none

/-- How a walk comes across a node. -/
def Sight.of (path : Path) : Node → Sight
  | .file .. => .file path
  | .directory _ => .directory path
  | .link _ => .other path

/-- A list of the sights of a walk that starts at a node: each that can be reached, once. -/
structure Delivers (root : Path) (node : Node) (sights : List Sight) : Prop where
  each : ∀ s, s ∈ sights ↔ ∃ loc n, reach? loc node = some n ∧ s = .of (root.descend loc) n
  once : sights.Nodup

/-- Two walks from the same root differ in the order only. -/
theorem Delivers.perm {root : Path} {node : Node} {sights sights' : List Sight}
    (h : Delivers root node sights) (h' : Delivers root node sights') : sights.Perm sights' :=
  (List.perm_ext_iff_of_nodup h.once h'.once).2 fun s => (h.each s).trans (h'.each s).symm

/-- The order of the sights does not matter. -/
theorem Delivers.of_perm {root : Path} {node : Node} {sights sights' : List Sight}
    (h : Delivers root node sights) (hperm : sights.Perm sights') : Delivers root node sights' :=
  ⟨fun s => hperm.mem_iff.symm.trans (h.each s), hperm.nodup_iff.1 h.once⟩

theorem Sight.of_injective {p q : Path} {n n' : Node} (h : Sight.of p n = .of q n') : p = q := by
  cases n <;> cases n' <;> simp_all [of]

/-- What is reached lies in the tree, and proper names lead to it. -/
theorem get?_of_reach? {node n : Node} {loc : Location} (h : reach? loc node = some n) :
    node.get? loc = some n := by
  induction loc generalizing node with
  | nil => exact h
  | cons name rest ih =>
    cases node with
    | directory es =>
      obtain ⟨child, hlookup, hrest⟩ := Option.bind_eq_some_iff.1 h
      split at hrest
      · simp [Node.get?, hlookup, ih hrest]
      · simp at hrest
    | file content executable => simp [reach?] at h
    | link target => simp [reach?] at h

theorem isName_of_reach? {node n : Node} {loc : Location} (hnode : node.wellNamed = true)
    (h : reach? loc node = some n) : ∀ name ∈ loc, Path.isName name = true :=
  (Node.wellNamed_of_get? hnode (get?_of_reach? h)).2

/-- No file is delivered twice. -/
theorem Delivers.nodup_filesOf {root : Path} {node : Node} {sights : List Sight}
    (h : Delivers root node sights) : (filesOf sights).Nodup := by
  refine h.once.filterMap fun s s' p hs hs' => ?_
  cases s <;> cases s' <;> simp_all

/-- The way to what is reached leads through directories that are reached. -/
theorem reach?_append {node : Node} {loc loc' : Location} :
    reach? (loc ++ loc') node = (reach? loc node).bind (reach? loc') := by
  induction loc generalizing node with
  | nil => rfl
  | cons name rest ih =>
    cases node with
    | directory es =>
      simp only [List.cons_append, reach?]
      cases es.lookup name with
      | none => rfl
      | some child =>
        simp only [Option.bind_some]
        split
        · exact ih
        · rfl
    | file content executable => rfl
    | link target => rfl

/-- A directory that is reached is reached through directories, and so is what lies in one. -/
theorem exists_reach?_of_append {node n : Node} {loc rest : Location}
    (h : reach? (loc ++ rest) node = some n) (hrest : rest ≠ [] ∨ n.isDirectory = true) :
    ∃ es, reach? loc node = some (.directory es) := by
  rw [reach?_append] at h
  obtain ⟨d, hd, hbelow⟩ := Option.bind_eq_some_iff.1 h
  cases d with
  | directory es => exact ⟨es, hd⟩
  | file content executable => cases rest <;> cases n <;> simp_all [reach?, Node.isDirectory]
  | link target => cases rest <;> cases n <;> simp_all [reach?, Node.isDirectory]

/-- The first step to what is reached below a directory. -/
theorem exists_reach?_iff {es : List (String × Node)} (hes : Node.entriesWellNamed es = true)
    {P : Location → Node → Prop} :
    (∃ loc n, loc ≠ [] ∧ reach? loc (.directory es) = some n ∧ P loc n) ↔
      ∃ e ∈ es, takesIn e.1 e.2 = true ∧ ∃ loc n, reach? loc e.2 = some n ∧ P (e.1 :: loc) n := by
  constructor
  · rintro ⟨loc, n, hloc, hreach, hP⟩
    obtain ⟨name, rest, rfl⟩ := List.exists_cons_of_ne_nil hloc
    obtain ⟨child, hlookup, hrest⟩ := Option.bind_eq_some_iff.1 hreach
    split at hrest
    · next htakes =>
      exact ⟨(name, child), (Node.lookup_eq_some_iff_mem hes).1 hlookup, htakes, rest, n, hrest, hP⟩
    · simp at hrest
  · rintro ⟨⟨name, child⟩, hmem, htakes, rest, n, hrest, hP⟩
    refine ⟨name :: rest, n, by simp, ?_, hP⟩
    simp [reach?, (Node.lookup_eq_some_iff_mem hes).2 hmem, htakes, hrest]

theorem get?_entry {top : Node} {dir : Location} {es : List (String × Node)} {e : String × Node}
    (hes : Node.entriesWellNamed es = true) (hdir : top.get? dir = some (.directory es))
    (he : e ∈ es) : top.get? (dir ++ [e.1]) = some e.2 :=
  Node.get?_concat hdir ((Node.lookup_eq_some_iff_mem hes).2 he)

/-! ### Once each -/

/-- Sights below a directory, each at the path of its own location. -/
structure Apart (path : Path) (sights : List Sight) : Prop where
  once : sights.Nodup
  placed : ∀ s ∈ sights, ∃ loc n, (∀ name ∈ loc, Path.isName name = true) ∧
    s = .of (path.descend loc) n

/-- Sights of different entries are apart. -/
theorem Apart.flatMap {path : Path} {es : List (String × Node)}
    (hes : Node.entriesWellNamed es = true) {f : String × Node → List Sight}
    (hf : ∀ e ∈ es, Apart (path.child e.1) (f e)) :
    Apart path (es.flatMap f) ∧ ∀ n, .of path n ∉ es.flatMap f := by
  have htold : ∀ e ∈ es, ∀ s ∈ f e, ∃ loc n, (∀ name ∈ e.1 :: loc, Path.isName name = true) ∧
      s = .of (path.descend (e.1 :: loc)) n := by
    intro e he s hs
    obtain ⟨loc, n, hloc, rfl⟩ := (hf e he).placed s hs
    exact ⟨loc, n, List.forall_mem_cons.2 ⟨(Node.wellNamed_of_mem hes he).1, hloc⟩, rfl⟩
  refine ⟨⟨List.nodup_flatMap.2 ⟨fun e he => (hf e he).once, ?_⟩, fun s hs => ?_⟩, fun n hn => ?_⟩
  · -- what lies at or below different entries has different paths
    refine (Node.pairwise_of_entriesWellNamed hes).imp_of_mem fun {e e'} he he' hne s hs hs' => ?_
    obtain ⟨loc, n, hnames, rfl⟩ := htold e he s hs
    obtain ⟨loc', n', hnames', heq⟩ := htold e' he' _ hs'
    have hsame := Path.descend_injective path hnames hnames'
      (congrArg Path.components (Sight.of_injective heq))
    exact hne (List.cons.inj hsame).1
  · obtain ⟨e, he, hs⟩ := List.mem_flatMap.1 hs
    obtain ⟨loc, n, hnames, rfl⟩ := htold e he s hs
    exact ⟨e.1 :: loc, n, hnames, rfl⟩
  · obtain ⟨e, he, hs⟩ := List.mem_flatMap.1 hn
    obtain ⟨loc, n', hnames, heq⟩ := htold e he _ hs
    have hsame := Path.descend_injective path (List.forall_mem_nil _) hnames
      (congrArg Path.components (Sight.of_injective heq))
    exact List.cons_ne_nil _ _ hsame.symm

theorem Apart.nil (path : Path) : Apart path [] :=
  ⟨List.nodup_nil, by simp⟩

theorem Apart.cons {path : Path} {sights : List Sight} (h : Apart path sights) (node : Node)
    (hnew : ∀ n, .of path n ∉ sights) : Apart path (.of path node :: sights) := by
  refine ⟨List.nodup_cons.2 ⟨hnew node, h.once⟩, fun s hs => ?_⟩
  rcases List.mem_cons.1 hs with rfl | hs
  · exact ⟨[], node, by simp, rfl⟩
  · exact h.placed s hs

/-- Where links are not followed, a walk comes across everything once, at its own location. -/
theorem apart_below {files : Files} (hfiles : files.top.wellNamed = true) {options : WalkOptions}
    (hlinks : options.followLinks = false) {dir : Location} {es : List (String × Node)}
    (hdir : files.top.get? dir = some (.directory es)) (reach depth : Nat) (outer : List Location)
    (levels : List Level) (names : List String) (path : Path) :
    Apart path (below files options reach depth (dir :: outer) levels names path) ∧
      ∀ n, .of path n ∉ below files options reach depth (dir :: outer) levels names path := by
  induction reach generalizing dir es depth outer levels names path with
  | zero =>
    rw [below]
    exact ⟨.nil path, by simp⟩
  | succ reach ih =>
    have hes : Node.entriesWellNamed es = true := (Node.wellNamed_of_get? hfiles hdir).1
    have hentry : ∀ name node, resolve files options (dir :: outer) dir name node =
        some (dir ++ [name], node) := by
      intro name node
      cases node <;> simp [resolve, hlinks]
    rw [below]
    split
    · exact ⟨.nil path, by simp⟩
    · rw [hdir]
      refine Apart.flatMap hes fun e he => ?_
      simp only [hentry]
      split
      · exact .nil _
      · cases hnode : e.2 with
        | file content executable => exact Apart.cons (.nil _) (.file content executable) (by simp)
        | link target => exact Apart.cons (.nil _) (.link target) (by simp)
        | directory es' =>
          have hdir' : files.top.get? (dir ++ [e.1]) = some (.directory es') :=
            hnode ▸ get?_entry hes hdir he
          obtain ⟨hbelow, hnew⟩ :=
            ih hdir' (depth + 1) (dir :: outer) _ (names ++ [e.1]) (path.child e.1)
          exact hbelow.cons (.directory es') hnew

/-- A walk that does not follow links comes across everything once, at its own location. -/
theorem apart_sights {files : Files} (hfiles : files.top.wellNamed = true) {options : WalkOptions}
    (hlinks : options.followLinks = false) {root : Path} {found : List Sight}
    (h : sights files options root = .ok found) : Apart root found := by
  rw [sights] at h
  cases hplace : files.place root with
  | error e => simp [hplace] at h
  | ok place =>
    simp only [hplace] at h
    split at h
    · simp at h
    · next es hget =>
      obtain rfl := Except.ok.inj h
      obtain ⟨hbelow, hnew⟩ :=
        apart_below hfiles hlinks hget (files.top.descendants.length + 1) 0 []
          (if options.respectIgnore then Level.ofAncestors files.top place.location else [])
          place.location root
      exact hbelow.cons (.directory es) hnew
    · obtain rfl := Except.ok.inj h
      exact Apart.cons (.nil root) (.file .empty false) (by simp)

/-! ### The walk of a workspace -/

section

variable {files : Files} (hfiles : files.top.wellNamed = true)

/-- What is walked of an entry that is taken in: the entry itself and all below. -/
def ofEntry (files : Files) (reach depth : Nat) (chain : List Location) (levels : List Level)
    (names : List String) (path : Path) (loc : Location) (node : Node) : List Sight :=
  .of path node ::
    if node.isDirectory then
      below files .workspace reach depth (loc :: chain) levels names path
    else []

theorem below_succ {dir : Location} {es : List (String × Node)}
    (hdir : files.top.get? dir = some (.directory es)) (reach depth : Nat) (outer : List Location)
    (levels : List Level) (names : List String) (path : Path) :
    below files .workspace (reach + 1) depth (dir :: outer) levels names path =
      es.flatMap fun e =>
        if takesIn e.1 e.2 then
          ofEntry files reach (depth + 1) (dir :: outer) levels (names ++ [e.1]) (path.child e.1)
            (dir ++ [e.1]) e.2
        else [] := by
  have hentry : ∀ name node, resolve files .workspace (dir :: outer) dir name node =
      some (dir ++ [name], node) := by
    intro name node
    cases node <;> rfl
  have hpassed : ∀ name (node : Node) (names : List String),
      passedOver .workspace levels names name node.isDirectory = !takesIn name node := by
    intro name node names
    simp [passedOver, takesIn, WalkOptions.workspace]
  rw [below]
  simp only [WalkOptions.workspace, Option.any_none, Bool.false_eq_true, if_false]
  rw [← WalkOptions.workspace, hdir]
  simp only [Option.map_some, Option.getD_some, Node.entries, hentry, hpassed]
  congr 1
  funext e
  cases htakes : takesIn e.1 e.2 with
  | false => simp
  | true => cases hnode : e.2 <;> simp [ofEntry, Sight.of, Node.isDirectory]

/-- Of what is no directory nothing but itself is reached. -/
theorem reach?_of_not_isDirectory {node n : Node} {loc : Location} (h : node.isDirectory = false) :
    reach? loc node = some n ↔ loc = [] ∧ n = node := by
  cases loc with
  | nil => simp [reach?, eq_comm]
  | cons name rest => cases node <;> simp_all [reach?, Node.isDirectory]

/-- What is walked of an entry is what can be reached from it, if that is so below directories. -/
theorem mem_ofEntry {reach depth : Nat} {chain : List Location} {levels : List Level}
    {names : List String} {path : Path} {loc : Location} {node : Node}
    (hbelow : ∀ es, node = .directory es → ∀ s,
      s ∈ below files .workspace reach depth (loc :: chain) levels names path ↔
        ∃ loc n, loc ≠ [] ∧ reach? loc (.directory es) = some n ∧ s = .of (path.descend loc) n)
    (s : Sight) :
    s ∈ ofEntry files reach depth chain levels names path loc node ↔
      ∃ loc n, reach? loc node = some n ∧ s = .of (path.descend loc) n := by
  rw [ofEntry, List.mem_cons]
  by_cases hnode : node.isDirectory = true
  · cases node with
    | directory es =>
      rw [if_pos hnode, hbelow es rfl s]
      constructor
      · rintro (rfl | ⟨loc, n, -, hrest, rfl⟩)
        · exact ⟨[], _, rfl, rfl⟩
        · exact ⟨loc, n, hrest, rfl⟩
      · rintro ⟨loc, n, hrest, rfl⟩
        by_cases hloc : loc = []
        · subst hloc
          obtain rfl := Option.some.inj hrest
          exact .inl rfl
        · exact .inr ⟨loc, n, hloc, hrest, rfl⟩
    | file content executable => simp [Node.isDirectory] at hnode
    | link target => simp [Node.isDirectory] at hnode
  · rw [if_neg hnode]
    simp [reach?_of_not_isDirectory (Bool.eq_false_iff.2 hnode)]

include hfiles

/-- Below a directory a walk comes across what can be reached from it. -/
theorem mem_below {dir : Location} {es : List (String × Node)}
    (hdir : files.top.get? dir = some (.directory es)) {reach : Nat}
    (hreach : (Node.directory es).descendants.length < reach) (depth : Nat)
    (outer : List Location) (levels : List Level) (names : List String) (path : Path) (s : Sight) :
    s ∈ below files .workspace reach depth (dir :: outer) levels names path ↔
      ∃ loc n, loc ≠ [] ∧ reach? loc (.directory es) = some n ∧ s = .of (path.descend loc) n := by
  induction reach generalizing dir es depth outer names path s with
  | zero => omega
  | succ reach ih =>
    have hes : Node.entriesWellNamed es = true := (Node.wellNamed_of_get? hfiles hdir).1
    rw [below_succ hdir, List.mem_flatMap, exists_reach?_iff hes]
    refine exists_congr fun e => and_congr_right fun he => ?_
    cases htakes : takesIn e.1 e.2 with
    | false => simp
    | true =>
      simp only [if_true, true_and]
      refine mem_ofEntry (fun es' hnode s => ih ?_ ?_ _ _ _ _ s) s
      · exact hnode ▸ get?_entry hes hdir he
      · have := Node.length_descendants_lt he
        rw [hnode] at this
        omega

/-- Walking a directory delivers what can be reached from it. -/
theorem exists_delivers {root : Path} {es : List (String × Node)}
    (hroot : files.node root = .ok (.directory es)) :
    ∃ found, sights files .workspace root = .ok found ∧ Delivers root (.directory es) found := by
  obtain ⟨place, hplace, hget⟩ := Files.node_eq_ok_iff.1 hroot
  have hreach : (Node.directory es).descendants.length < files.top.descendants.length + 1 := by
    have := Node.length_descendants_le hfiles hget
    omega
  have hbelow := fun s => mem_below hfiles hget hreach 0 [] [] place.location root s
  have hsights : sights files .workspace root =
      .ok (ofEntry files (files.top.descendants.length + 1) 0 [] [] place.location root
        place.location (.directory es)) := by
    simp only [sights, hplace, hget]
    rfl
  refine ⟨_, hsights, fun s => mem_ofEntry ?_ s, (apart_sights hfiles rfl hsights).once⟩
  rintro es' hnode
  obtain rfl := Node.directory.inj hnode
  exact hbelow

end

end Walk

end Grove
