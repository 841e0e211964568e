import Grove.Files.Basic
import Grove.Proofs.Paths

/-!
# Trees with proper names

A directory has its entries under proper names, each name once. In a tree of such directories what
lies at a location has proper names in turn, and so has every location that holds something.

## What is proved

* `Node.lookup_eq_some_iff_mem` — what an entry holds is found under its name.
* `Node.wellNamed_of_get?` — what a location leads to has proper names, and so has the location.
* `Node.length_descendants_le` — a node has no more nodes below than the tree it lies in.
-/

namespace Grove

namespace Node

mutual

/-- Whether every directory has entries of proper names, each once, as the directories of a file
system have. -/
def wellNamed : Node → Bool
  | file .. => true
  | link .. => true
  | directory es => entriesWellNamed es

/-- Whether entries have proper names, each once, and so have all below. -/
def entriesWellNamed : List (String × Node) → Bool
  | [] => true
  | (name, node) :: rest =>
    Path.isName name && rest.all (·.1 != name) && node.wellNamed && entriesWellNamed rest

end

theorem entriesWellNamed_cons {name : String} {node : Node} {rest : List (String × Node)} :
    entriesWellNamed ((name, node) :: rest) = true ↔
      Path.isName name = true ∧ (∀ e ∈ rest, e.1 ≠ name) ∧ node.wellNamed = true ∧
        entriesWellNamed rest = true := by
  simp [entriesWellNamed, and_assoc]

section

variable {es : List (String × Node)} (hes : entriesWellNamed es = true)

include hes

theorem wellNamed_of_mem {name : String} {node : Node} (h : (name, node) ∈ es) :
    Path.isName name = true ∧ node.wellNamed = true := by
  induction es with
  | nil => simp at h
  | cons e rest ih =>
    obtain ⟨hname, -, hnode, hrest⟩ := entriesWellNamed_cons.1 hes
    rcases List.mem_cons.1 h with rfl | h
    · exact ⟨hname, hnode⟩
    · exact ih hrest h

/-- Entries have different names. -/
theorem pairwise_of_entriesWellNamed : es.Pairwise fun a b => a.1 ≠ b.1 := by
  induction es with
  | nil => exact .nil
  | cons e rest ih =>
    obtain ⟨-, hdifferent, -, hrest⟩ := entriesWellNamed_cons.1 hes
    exact List.pairwise_cons.2 ⟨fun e' he' => (hdifferent e' he').symm, ih hrest⟩

theorem lookup_eq_some_iff_mem {name : String} {node : Node} :
    es.lookup name = some node ↔ (name, node) ∈ es := by
  induction es with
  | nil => simp
  | cons e rest ih =>
    obtain ⟨n, x⟩ := e
    obtain ⟨-, hdifferent, -, hrest⟩ := entriesWellNamed_cons.1 hes
    rw [List.lookup_cons]
    by_cases hname : name = n
    · subst hname
      simp only [beq_self_eq_true, Option.some.injEq, List.mem_cons, Prod.mk.injEq, true_and]
      constructor
      · exact fun h => .inl h.symm
      · rintro (h | h)
        · exact h.symm
        · exact absurd rfl (hdifferent _ h)
    · simp [beq_eq_false_iff_ne.2 hname, hname, ih hrest]

end

/-- What a location leads to has proper names, and so has the location. -/
theorem wellNamed_of_get? {top node : Node} {loc : Location} (htop : top.wellNamed = true)
    (h : top.get? loc = some node) :
    node.wellNamed = true ∧ ∀ name ∈ loc, Path.isName name = true := by
  induction loc generalizing top with
  | nil =>
    obtain rfl := Option.some.inj h
    exact ⟨htop, by simp⟩
  | cons name rest ih =>
    cases top with
    | directory es =>
      obtain ⟨child, hlookup, hrest⟩ := Option.bind_eq_some_iff.1 h
      obtain ⟨hname, hchild⟩ := wellNamed_of_mem htop ((lookup_eq_some_iff_mem htop).1 hlookup)
      obtain ⟨hnode, hnames⟩ := ih hchild hrest
      exact ⟨hnode, List.forall_mem_cons.2 ⟨hname, hnames⟩⟩
    | file content executable => simp [get?] at h
    | link target => simp [get?] at h

theorem get?_append (top : Node) (loc loc' : Location) :
    top.get? (loc ++ loc') = (top.get? loc).bind (get? loc') := by
  induction loc generalizing top with
  | nil => rfl
  | cons name rest ih =>
    cases top with
    | directory es =>
      simp only [List.cons_append, get?]
      cases es.lookup name with
      | none => rfl
      | some child => exact ih child
    | file content executable => rfl
    | link target => rfl

/-- An entry of a directory lies at the location of the directory and its name. -/
theorem get?_concat {top node : Node} {loc : Location} {es : List (String × Node)} {name : String}
    (hloc : top.get? loc = some (directory es)) (hname : es.lookup name = some node) :
    top.get? (loc ++ [name]) = some node := by
  rw [get?_append, hloc, Option.bind_some, get?, hname]
  rfl

/-- What lies in another node lies in a directory. -/
theorem exists_directory_of_get?_concat {top node : Node} {loc : Location} {name : String}
    (h : top.get? (loc ++ [name]) = some node) :
    ∃ es, top.get? loc = some (directory es) ∧ es.lookup name = some node := by
  rw [get?_append] at h
  obtain ⟨d, hd, hentry⟩ := Option.bind_eq_some_iff.1 h
  cases d with
  | directory es =>
    refine ⟨es, hd, ?_⟩
    cases hlookup : es.lookup name <;> simp_all [get?]
  | file content executable => simp [get?] at hentry
  | link target => simp [get?] at hentry

/-- There is something on the way to what is there. -/
theorem isSome_get?_of_prefix {top : Node} {loc loc' : Location} (hstart : loc' <+: loc)
    (h : (top.get? loc).isSome = true) : (top.get? loc').isSome = true := by
  obtain ⟨rest, rfl⟩ := hstart
  rw [get?_append] at h
  exact Option.isSome_of_isSome_bind h

/-- An entry has fewer nodes below than its directory. -/
theorem length_descendants_lt {es : List (String × Node)} {name : String} {node : Node}
    (h : (name, node) ∈ es) :
    node.descendants.length < (directory es).descendants.length := by
  rw [descendants]
  induction es with
  | nil => simp at h
  | cons e rest ih =>
    obtain ⟨n, x⟩ := e
    rw [entryDescendants, List.length_append, List.length_cons, List.length_map]
    rcases List.mem_cons.1 h with heq | h
    · obtain ⟨rfl, rfl⟩ := Prod.mk.inj heq
      omega
    · have := ih h
      omega

/-- A node has no more nodes below than the top. -/
theorem length_descendants_le {top node : Node} {loc : Location} (htop : top.wellNamed = true)
    (h : top.get? loc = some node) : node.descendants.length ≤ top.descendants.length := by
  induction loc generalizing top with
  | nil =>
    obtain rfl := Option.some.inj h
    exact Nat.le_refl _
  | cons name rest ih =>
    cases top with
    | directory es =>
      obtain ⟨child, hlookup, hrest⟩ := Option.bind_eq_some_iff.1 h
      have hmem := (lookup_eq_some_iff_mem htop).1 hlookup
      have hlt := length_descendants_lt hmem
      have hle := ih (wellNamed_of_mem htop hmem).2 hrest
      omega
    | file content executable => simp [get?] at h
    | link target => simp [get?] at h

end Node

namespace Files

variable {files : Files}

theorem node_eq_ok_iff {p : Path} {n : Node} :
    files.node p = .ok n ↔
      ∃ place, files.place p = .ok place ∧ files.top.get? place.location = some n := by
  rw [node]
  cases hplace : files.place p with
  | error e => simp [bind, Except.bind]
  | ok place =>
    simp only [bind, Except.bind, Except.ok.injEq, exists_eq_left']
    cases files.top.get? place.location <;> simp

theorem wellNamed_of_node (hfiles : files.top.wellNamed = true) {p : Path} {n : Node}
    (h : files.node p = .ok n) : n.wellNamed = true := by
  obtain ⟨place, -, hget⟩ := node_eq_ok_iff.1 h
  exact (Node.wellNamed_of_get? hfiles hget).1

/-- The empty path leads nowhere. -/
theorem components_of_node {p : Path} {n : Node} (h : files.node p = .ok n) :
    p.components ≠ [] := by
  intro hnil
  obtain ⟨place, hplace, -⟩ := node_eq_ok_iff.1 h
  simp [Files.place, hnil] at hplace

end Files

end Grove
