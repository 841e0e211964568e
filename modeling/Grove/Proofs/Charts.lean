import Grove.Proofs.JsonReading
import Grove.Proofs.Names
import Grove.Proofs.Paths
import Grove.Statistics.Chart
import Grove.Text.Decimal
import Mathlib.Algebra.GroupWithZero.Nat
import Mathlib.Data.List.Perm.Basic

/-!
# What charts and listings show

A chart is built file by file. A file comes last in its directory, and a directory is made only where
a file is put into it. Hence the tree that is written has a leaf for each file, where what is shown of
its path says, and the files of each directory are in the order of the scores. A listing has a line for
each file. Where all names are texts they are shown as they are; then both can be read back to the
scores they were made from, and the tree has each file once and is in name order, as the scores are.

## What is proved

* `leaves_add`, `filesIn_add`, `arrangedBy_add` — what adding one file does to a chart.
* `foldl_addPath`, `ofScores_leaves` — what adding all files does.
* `read?_chartText` — a chart is read as the tree it stands for, indented or not.
* `readListing?_listing` — a listing is read as the scores in their order, as they are shown.
* `chart_faithful` — all of it together.
* `names_shown_alike` — files whose names are shown alike.
-/

namespace Grove

/-! ### Trees of files -/

/-- A directory or a scored file, as charts show them. -/
inductive ChartNode where
  /-- A directory with what is in it. -/
  | directory (name : String) (children : List ChartNode)
  /-- A file. -/
  | file (name : String) (size : Nat)

/-- A file with the names that lead to it, its own last, and its score. -/
abbrev Leaf := List String × Nat

/-- A leaf as it is seen from the directory around. -/
def Leaf.under (name : String) (leaf : Leaf) : Leaf :=
  (name :: leaf.1, leaf.2)

/-- Whether two leaves of one directory have names of which the first comes before the second. -/
def Leaf.Before (before : String → String → Prop) (leaf later : Leaf) : Prop :=
  ∀ directory file file', leaf.1 = directory ++ [file] → later.1 = directory ++ [file'] →
    before file file'

/-- The leaves of one directory, in their order. -/
def Leaf.filesIn (directory : List String) (leaves : List Leaf) : List Leaf :=
  leaves.filter fun leaf => leaf.1.dropLast = directory

theorem Leaf.filesIn_append (directory : List String) (xs ys : List Leaf) :
    filesIn directory (xs ++ ys) = filesIn directory xs ++ filesIn directory ys :=
  List.filter_append _ _

theorem Leaf.filesIn_singleton (directory names : List String) (file : String) (score : Nat) :
    filesIn directory [(names ++ [file], score)] =
      if names = directory then [(names ++ [file], score)] else [] := by
  simp [filesIn, List.filter_cons]

namespace ChartNode

/-- The name of a node. -/
def name : ChartNode → String
  | directory name _ => name
  | file name _ => name

/-- Whether the node is a directory. -/
def isDirectory : ChartNode → Bool
  | directory _ _ => true
  | file _ _ => false

mutual

/-- The files of a node. -/
def leaves : ChartNode → List Leaf
  | directory name children => (rowLeaves children).map (Leaf.under name)
  | file name size => [([name], size)]

/-- The files of some nodes. -/
def rowLeaves : List ChartNode → List Leaf
  | [] => []
  | node :: rest => node.leaves ++ rowLeaves rest

end

mutual

/-- A node as a JSON value. -/
def toJson : ChartNode → Json
  | directory name children =>
    .object [("name", .text name), ("children", .list (rowToJson children))]
  | file name size => .object [("name", .text name), ("size", .number size)]

/-- Nodes as JSON values. -/
def rowToJson : List ChartNode → List Json
  | [] => []
  | node :: rest => node.toJson :: rowToJson rest

end

/-- In each directory the directories come first, in name order with each name once, and behind them
the files, of whose names each is before those that follow, and every directory but the top one has a
file beneath it. -/
inductive ArrangedBy (before : String → String → Prop) : ChartNode → Prop
  /-- A file. -/
  | file (name : String) (size : Nat) : ArrangedBy before (.file name size)
  /-- A directory. -/
  | directory (name : String) {directories files : List ChartNode}
    (hdirectories : ∀ d ∈ directories, d.isDirectory = true)
    (hfiles : ∀ f ∈ files, f.isDirectory = false)
    (hdirectoryNames : Ordered.Increasing compare (directories.map ChartNode.name))
    (hfileNames : (files.map ChartNode.name).Pairwise before)
    (hfilled : ∀ d ∈ directories, d.leaves ≠ [])
    (hinner : ∀ d ∈ directories, ArrangedBy before d) :
    ArrangedBy before (.directory name (directories ++ files))

/-- Directories come first, in name order, and files behind them, in any order. -/
abbrev Arranged : ChartNode → Prop :=
  ArrangedBy fun _ _ => True

/-- Directories come first, in name order, and files behind them, in name order, too. -/
abbrev Tidy : ChartNode → Prop :=
  ArrangedBy fun file file' => compare file file' = .lt

theorem rowLeaves_append (xs ys : List ChartNode) :
    rowLeaves (xs ++ ys) = rowLeaves xs ++ rowLeaves ys := by
  induction xs with
  | nil => rfl
  | cons x xs ih => rw [List.cons_append, rowLeaves, ih, ← List.append_assoc, ← rowLeaves]

theorem rowToJson_append (xs ys : List ChartNode) :
    rowToJson (xs ++ ys) = rowToJson xs ++ rowToJson ys := by
  induction xs with
  | nil => rfl
  | cons x xs ih => rw [List.cons_append, rowToJson, ih, ← List.cons_append, ← rowToJson]

end ChartNode

namespace Chart

/-! ### The tree of a chart -/

/-- A scored file as a node. -/
def fileNode (file : String × Nat) : ChartNode :=
  .file file.1 file.2

mutual

/-- The nodes in the top directory of a chart. -/
def nodes : Chart → List ChartNode
  | node directories files => directoryNodes directories ++ files.map fileNode

/-- Directories as nodes. -/
def directoryNodes : List (String × Chart) → List ChartNode
  | [] => []
  | (name, chart) :: rest => .directory name chart.nodes :: directoryNodes rest

end

mutual

/-- A chart is written as its tree is. -/
theorem toJson_eq (name : String) (chart : Chart) :
    chart.toJson name = (ChartNode.directory name chart.nodes).toJson := by
  cases chart with
  | node ds fs =>
    have hfiles : fs.map fileJson = ChartNode.rowToJson (fs.map fileNode) := by
      induction fs with
      | nil => rfl
      | cons file rest ih => rw [List.map_cons, List.map_cons, ih]; rfl
    rw [toJson, ChartNode.toJson, nodes, ChartNode.rowToJson_append, hfiles, directoriesToJson_eq ds]

theorem directoriesToJson_eq (ds : List (String × Chart)) :
    directoriesToJson ds = ChartNode.rowToJson (directoryNodes ds) := by
  cases ds with
  | nil => rfl
  | cons d rest =>
    obtain ⟨name, chart⟩ := d
    rw [directoriesToJson, directoryNodes, ChartNode.rowToJson, toJson_eq name chart,
      directoriesToJson_eq rest]

end

/-- The files of a chart. -/
def leaves (chart : Chart) : List Leaf :=
  ChartNode.rowLeaves chart.nodes

/-- The files below a directory of a chart. -/
def entryLeaves (d : String × Chart) : List Leaf :=
  d.2.leaves.map (Leaf.under d.1)

theorem leaves_node (ds : List (String × Chart)) (fs : List (String × Nat)) :
    (node ds fs).leaves = ds.flatMap entryLeaves ++ fs.map fun (name, score) => ([name], score) := by
  have hdirectories : ChartNode.rowLeaves (directoryNodes ds) = ds.flatMap entryLeaves := by
    induction ds with
    | nil => rfl
    | cons d ds ih => rw [List.flatMap_cons, ← ih]; rfl
  have hfiles : ChartNode.rowLeaves (fs.map fileNode) = fs.map fun (name, score) => ([name], score) := by
    induction fs with
    | nil => rfl
    | cons file fs ih => rw [List.map_cons, List.map_cons, ← ih]; rfl
  rw [leaves, nodes, ChartNode.rowLeaves_append, hdirectories, hfiles]

@[simp] theorem leaves_empty : empty.leaves = [] := rfl

/-- In each directory the directories have names in order, the name of each file is before those of the
files that follow, and every directory but the top one has a file beneath it. -/
inductive ArrangedBy (before : String → String → Prop) : Chart → Prop
  /-- A directory with what is in it. -/
  | node {ds : List (String × Chart)} {fs : List (String × Nat)}
    (hdirectories : Ordered.Increasing compare (ds.map (·.1)))
    (hfiles : (fs.map (·.1)).Pairwise before)
    (hfilled : ∀ d ∈ ds, d.2.leaves ≠ [])
    (hinner : ∀ d ∈ ds, ArrangedBy before d.2) : ArrangedBy before (node ds fs)

variable {before : String → String → Prop}

theorem arrangedBy_empty : empty.ArrangedBy before :=
  .node .nil .nil (by simp) (by simp)

theorem directoryNodes_eq_map (ds : List (String × Chart)) :
    directoryNodes ds = ds.map fun (name, chart) => .directory name chart.nodes := by
  induction ds with
  | nil => rfl
  | cons d ds ih => rw [List.map_cons, ← ih]; rfl

/-- The tree of an arranged chart is arranged. -/
theorem ArrangedBy.tree {chart : Chart} (h : chart.ArrangedBy before) (name : String) :
    (ChartNode.directory name chart.nodes).ArrangedBy before := by
  induction h generalizing name with
  | @node ds fs hdirectories hfiles hfilled _ ih =>
    rw [nodes, directoryNodes_eq_map]
    refine .directory name ?_ ?_ ?_ ?_ ?_ ?_
    · simp only [List.forall_mem_map]
      exact fun _ _ => rfl
    · simp only [List.forall_mem_map]
      exact fun _ _ => rfl
    · rw [List.map_map]
      exact hdirectories
    · rw [List.map_map]
      exact hfiles
    · simp only [List.forall_mem_map]
      intro d hd hnil
      exact hfilled d hd (List.map_eq_nil_iff.1 hnil)
    · simp only [List.forall_mem_map]
      exact fun d hd => ih d hd d.1

/-! ### Adding a file -/

/-- A file that comes to a directory of a row comes to the files of the row. -/
theorem perm_put {ds : List (String × Chart)} (hds : Ordered.Increasing compare (ds.map (·.1)))
    {name : String} {inner : Chart} {leaf : Leaf}
    (h : inner.leaves.Perm (leaf :: ((Ordered.get? compare name ds).getD empty).leaves)) :
    ((Ordered.put compare name inner ds).flatMap entryLeaves).Perm
      (leaf.under name :: ds.flatMap entryLeaves) := by
  induction ds with
  | nil => simpa [Ordered.put, entryLeaves, Ordered.get?] using h.map (Leaf.under name)
  | cons d ds ih =>
    obtain ⟨k, chart⟩ := d
    obtain ⟨hfirst, hrest⟩ := List.pairwise_cons.1 hds
    simp only [Ordered.put]
    cases hcmp : compare name k with
    | lt =>
      have hnone : Ordered.get? compare name ((k, chart) :: ds) = none := by
        refine Ordered.get?_of_lt compare (List.forall_mem_cons.2 ⟨hcmp, fun e he => ?_⟩)
        exact Std.TransCmp.lt_trans hcmp (hfirst e.1 (List.mem_map_of_mem he))
      rw [hnone] at h
      rw [List.flatMap_cons]
      exact (h.map (Leaf.under name)).append_right _
    | eq =>
      obtain rfl := Std.LawfulEqOrd.eq_of_compare hcmp
      simp only [Ordered.get?, hcmp, if_true, Option.getD_some] at h
      exact (h.map (Leaf.under name)).append_right _
    | gt =>
      simp only [Ordered.get?, hcmp, reduceCtorEq, if_false] at h
      rw [List.flatMap_cons, List.flatMap_cons]
      exact ((ih hrest h).append_left _).trans List.perm_middle

/-- What is found in an arranged row is arranged. -/
theorem arrangedBy_get? {ds : List (String × Chart)} (hinner : ∀ d ∈ ds, d.2.ArrangedBy before)
    (name : String) : ((Ordered.get? compare name ds).getD empty).ArrangedBy before := by
  cases hget : Ordered.get? compare name ds with
  | none => exact arrangedBy_empty
  | some chart =>
    obtain ⟨k, -, hmem⟩ := Ordered.exists_mem_of_get? compare hget
    exact hinner _ hmem

/-- What is below the directory found is below the row. -/
theorem mem_leaves_of_get? {ds : List (String × Chart)} {name : String} {leaf : Leaf}
    (h : leaf ∈ ((Ordered.get? compare name ds).getD empty).leaves) :
    leaf.under name ∈ ds.flatMap entryLeaves := by
  cases hget : Ordered.get? compare name ds with
  | none =>
    rw [hget] at h
    exact absurd h List.not_mem_nil
  | some chart =>
    obtain ⟨k, hk, hmem⟩ := Ordered.exists_mem_of_get? compare hget
    obtain rfl := Std.LawfulEqOrd.eq_of_compare hk
    rw [hget] at h
    exact List.mem_flatMap.2 ⟨_, hmem, List.mem_map_of_mem h⟩

/-- Adding a file adds just that file. -/
theorem leaves_add {chart : Chart} (h : chart.ArrangedBy before) (names : List String) (file : String)
    (score : Nat) :
    (chart.add names file score).leaves.Perm ((names ++ [file], score) :: chart.leaves) := by
  induction names generalizing chart with
  | nil =>
    obtain ⟨ds, fs⟩ := chart
    rw [add, leaves_node, leaves_node, directories, files, List.map_append, ← List.append_assoc]
    exact List.perm_append_singleton _ _
  | cons name names ih =>
    cases h with
    | @node ds fs hdirectories _ _ hinner =>
      rw [add, leaves_node, leaves_node, directories, files, ← List.cons_append]
      exact (perm_put hdirectories (ih (arrangedBy_get? hinner name))).append_right _

theorem ne_nil_of_mem_leaves {chart : Chart} {leaf : Leaf} (h : leaf ∈ chart.leaves) :
    leaf.1 ≠ [] := by
  obtain ⟨ds, fs⟩ := chart
  rw [leaves_node, List.mem_append, List.mem_flatMap, List.mem_map] at h
  rcases h with ⟨d, -, h⟩ | ⟨file, -, rfl⟩
  · obtain ⟨inner, -, rfl⟩ := List.mem_map.1 h
    exact List.cons_ne_nil _ _
  · exact List.cons_ne_nil _ _

/-- The files of the top directory. -/
theorem filesIn_nil (ds : List (String × Chart)) (fs : List (String × Nat)) :
    Leaf.filesIn [] (node ds fs).leaves = fs.map fun (name, score) => ([name], score) := by
  have hbelow : (ds.flatMap entryLeaves).filter (fun leaf => leaf.1.dropLast = []) = [] := by
    refine List.filter_eq_nil_iff.2 fun leaf hleaf => ?_
    obtain ⟨d, -, hleaf⟩ := List.mem_flatMap.1 hleaf
    obtain ⟨inner, hinner, rfl⟩ := List.mem_map.1 hleaf
    simp [Leaf.under, List.dropLast_cons_of_ne_nil (ne_nil_of_mem_leaves hinner)]
  rw [leaves_node, Leaf.filesIn, List.filter_append, hbelow, List.nil_append, List.filter_eq_self,
    List.forall_mem_map]
  exact fun _ _ => rfl

/-- The files of a directory below one of another name. -/
theorem filesIn_entryLeaves (name : String) (directory : List String) (d : String × Chart) :
    Leaf.filesIn (name :: directory) (entryLeaves d) =
      if d.1 = name then (Leaf.filesIn directory d.2.leaves).map (Leaf.under name) else [] := by
  have hdrop : ∀ leaf ∈ d.2.leaves,
      (Leaf.under d.1 leaf).1.dropLast = d.1 :: leaf.1.dropLast := fun leaf hleaf =>
    List.dropLast_cons_of_ne_nil (ne_nil_of_mem_leaves hleaf)
  rw [Leaf.filesIn, entryLeaves, List.filter_map]
  split
  · next heq =>
    rw [Leaf.filesIn, ← heq]
    refine congrArg _ (List.filter_congr fun leaf hleaf => ?_)
    simp [hdrop leaf hleaf]
  · next hne =>
    rw [List.map_eq_nil_iff, List.filter_eq_nil_iff]
    intro leaf hleaf
    simp [hdrop leaf hleaf, hne]

theorem filesIn_flatMap {ds : List (String × Chart)}
    (hds : Ordered.Increasing compare (ds.map (·.1))) (name : String) (directory : List String) :
    Leaf.filesIn (name :: directory) (ds.flatMap entryLeaves) =
      (Leaf.filesIn directory ((Ordered.get? compare name ds).getD empty).leaves).map
        (Leaf.under name) := by
  induction ds with
  | nil => rfl
  | cons d ds ih =>
    obtain ⟨k, chart⟩ := d
    obtain ⟨hfirst, hrest⟩ := List.pairwise_cons.1 hds
    rw [List.flatMap_cons, Leaf.filesIn_append, filesIn_entryLeaves, ih hrest, Ordered.get?]
    by_cases hk : k = name
    · subst hk
      have hnone : Ordered.get? compare k ds = none :=
        Ordered.get?_of_lt compare fun e he => hfirst e.1 (List.mem_map_of_mem he)
      simp [hnone, Std.ReflOrd.compare_self, Leaf.filesIn]
    · have hcmp : compare name k ≠ .eq := fun h => hk (Std.LawfulEqOrd.eq_of_compare h).symm
      simp [hk, hcmp]

/-- The files of a directory further down. -/
theorem filesIn_cons {ds : List (String × Chart)} (hds : Ordered.Increasing compare (ds.map (·.1)))
    (fs : List (String × Nat)) (name : String) (directory : List String) :
    Leaf.filesIn (name :: directory) (node ds fs).leaves =
      (Leaf.filesIn directory ((Ordered.get? compare name ds).getD empty).leaves).map
        (Leaf.under name) := by
  have hfiles : Leaf.filesIn (name :: directory)
      (fs.map fun (name, score) => ([name], score)) = [] := by
    rw [Leaf.filesIn, List.filter_eq_nil_iff, List.forall_mem_map]
    exact fun _ _ => by simp
  rw [leaves_node, Leaf.filesIn_append, hfiles, List.append_nil, filesIn_flatMap hds]

/-- A file that is added is the last of its directory. -/
theorem filesIn_add {chart : Chart} (h : chart.ArrangedBy before) (names : List String)
    (file : String) (score : Nat) (directory : List String) :
    Leaf.filesIn directory (chart.add names file score).leaves =
      Leaf.filesIn directory (chart.leaves ++ [(names ++ [file], score)]) := by
  induction names generalizing chart directory with
  | nil =>
    obtain ⟨ds, fs⟩ := chart
    rw [add, leaves_node, leaves_node, directories, files, List.map_append, ← List.append_assoc]
    rfl
  | cons name names ih =>
    cases h with
    | @node ds fs hdirectories _ _ hinner =>
      rw [add, directories, files, Leaf.filesIn_append, Leaf.filesIn_singleton]
      cases directory with
      | nil => rw [filesIn_nil, filesIn_nil, if_neg (List.cons_ne_nil _ _), List.append_nil]
      | cons k directory =>
        rw [filesIn_cons (Ordered.increasing_keys_put compare _ _ hdirectories),
          filesIn_cons hdirectories]
        by_cases hk : k = name
        · subst hk
          rw [Ordered.get?_put_self, Option.getD_some, ih (arrangedBy_get? hinner k),
            Leaf.filesIn_append, Leaf.filesIn_singleton, List.map_append]
          refine congrArg _ ?_
          by_cases hnames : names = directory <;> simp [hnames, Leaf.under]
        · have hcons : name :: names ≠ k :: directory := fun h => hk (List.cons.inj h).1.symm
          rw [Ordered.get?_put_of_ne compare fun h => hk (Std.LawfulEqOrd.eq_of_compare h),
            if_neg hcons, List.append_nil]

/-- A chart stays arranged with a file that comes behind those of its directory. -/
theorem arrangedBy_add {chart : Chart} (h : chart.ArrangedBy before) {names : List String}
    {file : String} {score : Nat}
    (hlast : ∀ leaf ∈ chart.leaves, leaf.Before before (names ++ [file], score)) :
    (chart.add names file score).ArrangedBy before := by
  induction names generalizing chart with
  | nil =>
    cases h with
    | @node ds fs hdirectories hfiles hfilled hinner =>
      refine .node hdirectories ?_ hfilled hinner
      rw [List.map_append, List.pairwise_append]
      refine ⟨hfiles, List.pairwise_singleton _ _, fun f hf g hg => ?_⟩
      obtain ⟨e, he, rfl⟩ := List.mem_map.1 hf
      rw [List.mem_singleton.1 hg]
      have hleaf : ([e.1], e.2) ∈ (node ds fs).leaves := by
        rw [leaves_node]
        exact List.mem_append_right _ (List.mem_map.2 ⟨e, he, rfl⟩)
      exact hlast _ hleaf [] e.1 file rfl rfl
  | cons name names ih =>
    cases h with
    | @node ds fs hdirectories hfiles hfilled hinner =>
      have hfound := arrangedBy_get? hinner name
      have hbelow : ∀ leaf ∈ ((Ordered.get? compare name ds).getD empty).leaves,
          leaf.Before before (names ++ [file], score) := by
        intro leaf hleaf directory f g hf hg
        have hmem : leaf.under name ∈ (node ds fs).leaves := by
          rw [leaves_node]
          exact List.mem_append_left _ (mem_leaves_of_get? hleaf)
        exact hlast _ hmem (name :: directory) f g (congrArg (name :: ·) hf) (congrArg (name :: ·) hg)
      have hadded : (add names file score
          ((Ordered.get? compare name ds).getD empty)).leaves ≠ [] := by
        intro hnil
        have hperm := leaves_add hfound names file score
        rw [hnil] at hperm
        exact absurd hperm.length_eq (by simp)
      refine .node (Ordered.increasing_keys_put compare _ _ hdirectories) hfiles ?_ ?_
      · intro d hd
        rcases Ordered.mem_put compare hd with heq | hd
        · rw [heq]
          exact hadded
        · exact hfilled d hd
      · intro d hd
        rcases Ordered.mem_put compare hd with heq | hd
        · rw [heq]
          exact ih hfound hbelow
        · exact hinner d hd

end Chart

/-! ### Scores in path order -/

/-- Whether a component is a proper name. -/
def Component.isProper : Component → Bool
  | .name s => Path.isName s
  | _ => false

/-- A scored file with what is shown of the names that lead to it. -/
def Leaf.ofScore (score : Path × Nat) : Leaf :=
  (Chart.names score.1, score.2)

/-- A scored file with the names that lead to it as they are. -/
def Leaf.exact (score : Path × Nat) : Leaf :=
  (score.1.components.map Component.text, score.2)

/-- Scores in path order, one a path, of files in the directory or below it. -/
structure Scores.Regular (scores : Scores) : Prop where
  /-- The paths are in order, each once. -/
  increasing : Ordered.Increasing Path.order (scores.map (·.1))
  /-- No path is that of the directory itself. -/
  nonempty : ∀ e ∈ scores, e.1.components ≠ []
  /-- Each path leads downwards by proper names. -/
  proper : ∀ e ∈ scores, ∀ c ∈ e.1.components, c.isProper = true

/-- Whether the names that lead to the files are texts. -/
def Scores.AreText (scores : Scores) : Prop :=
  ∀ e ∈ scores, ∀ c ∈ e.1.components, Text.isText c.text = true

theorem Chart.names_of_isName {name : String} (h : Path.isName name = true) :
    Chart.names ⟨[name]⟩ = [Text.shown name] := by
  have hcomponents : Path.components ⟨[name]⟩ = [.name name] :=
    @Path.components_concat [] name h (by simp)
  rw [names, hcomponents]
  rfl

/-- Names that are texts are shown as they are. -/
theorem Chart.names_of_isText {path : Path}
    (h : ∀ c ∈ path.components, Text.isText c.text = true) :
    Chart.names path = path.components.map Component.text :=
  List.map_congr_left fun c hc => Text.shown_of_isText (h c hc)

theorem Scores.AreText.map_exact {scores : Scores} (h : scores.AreText) :
    scores.map Leaf.exact = scores.map Leaf.ofScore :=
  List.map_congr_left fun e he => Prod.ext (Chart.names_of_isText (h e he)).symm rfl

/-- Names that are texts are ordered as the texts are. -/
theorem Component.order_of_isProper {c d : Component} (hc : c.isProper = true)
    (hd : d.isProper = true) (hctext : Text.isText c.text = true)
    (hdtext : Text.isText d.text = true) : c.order d = compare c.text d.text := by
  cases c with
  | name s =>
    cases d with
    | name t =>
      have hbytes : compare (rankBytes (.name s)) (rankBytes (.name t)) = compare s t :=
        Text.compare_nameBytes hctext hdtext
      rw [order, hbytes]
      simp [rank, text]
    | _ => cases hd
  | _ => cases hc

/-- Paths of names that are texts are ordered as the lists of the names. -/
theorem compareLex_text {cs ds : List Component} (hcs : ∀ c ∈ cs, c.isProper = true)
    (hds : ∀ c ∈ ds, c.isProper = true) (hcstext : ∀ c ∈ cs, Text.isText c.text = true)
    (hdstext : ∀ c ∈ ds, Text.isText c.text = true) :
    List.compareLex Component.order cs ds = compare (cs.map Component.text) (ds.map Component.text) := by
  induction cs generalizing ds with
  | nil => cases ds <;> rfl
  | cons c cs ih =>
    cases ds with
    | nil => rfl
    | cons d ds =>
      obtain ⟨hc, hcs⟩ := List.forall_mem_cons.1 hcs
      obtain ⟨hd, hds⟩ := List.forall_mem_cons.1 hds
      obtain ⟨hctext, hcstext⟩ := List.forall_mem_cons.1 hcstext
      obtain ⟨hdtext, hdstext⟩ := List.forall_mem_cons.1 hdstext
      rw [List.compareLex_cons_cons, Component.order_of_isProper hc hd hctext hdtext,
        ih hcs hds hcstext hdstext, List.map_cons, List.map_cons, List.compare_cons_cons]

namespace Scores.Regular

variable {scores : Scores} (h : scores.Regular)

include h

theorem names_ne_nil : ∀ e ∈ scores, Chart.names e.1 ≠ [] :=
  fun e he hnil => h.nonempty e he (List.map_eq_nil_iff.1 hnil)

/-- No separator is shown of a name. -/
theorem slash_notMem : ∀ e ∈ scores, ∀ name ∈ Chart.names e.1, '/' ∉ name.toList := by
  intro e he name hname hslash
  obtain ⟨c, hc, rfl⟩ := List.mem_map.1 hname
  have hproper := h.proper e he c hc
  cases c with
  | name s =>
    exact Path.slash_notMem_of_isName hproper
      (Text.mem_of_mem_shown (by decide) (by decide) hslash)
  | _ => cases hproper

/-- The names of the files are in order where they are texts. -/
theorem increasing_names (htext : scores.AreText) :
    scores.Pairwise fun d e => compare (Chart.names d.1) (Chart.names e.1) = .lt := by
  have hpaths := List.pairwise_map.1 h.increasing
  refine hpaths.imp_of_mem fun {d e} hd he hlt => ?_
  rw [Chart.names_of_isText (htext d hd), Chart.names_of_isText (htext e he)]
  exact (compareLex_text (h.proper d hd) (h.proper e he) (htext d hd) (htext e he)).symm.trans hlt

end Scores.Regular

/-- Of leaves in order those of one directory have names in order. -/
theorem Leaf.before_of_lt {leaf later : Leaf} (h : compare leaf.1 later.1 = .lt) :
    leaf.Before (fun file file' => compare file file' = .lt) later := by
  intro directory file file' hfile hfile'
  rw [hfile, hfile', List.compare_eq_compareLex, Ordered.compareLex_append_left,
    List.compareLex_cons_cons, List.compareLex_nil_nil, Ordering.then_eq] at h
  exact h

namespace Chart

variable {before : String → String → Prop}

/-- Adding the files one after the other, each behind those of its directory, adds just these files. -/
theorem foldl_addPath {scores : Scores} {chart : Chart} (h : chart.ArrangedBy before)
    (hnames : ∀ e ∈ scores, names e.1 ≠ [])
    (hlast : ∀ leaf ∈ chart.leaves, ∀ e ∈ scores, leaf.Before before (Leaf.ofScore e))
    (hscores : scores.Pairwise fun d e => (Leaf.ofScore d).Before before (Leaf.ofScore e)) :
    let whole := scores.foldl (fun chart (path, score) => chart.addPath path score) chart
    whole.ArrangedBy before ∧ whole.leaves.Perm (chart.leaves ++ scores.map Leaf.ofScore) ∧
      ∀ directory, Leaf.filesIn directory whole.leaves =
        Leaf.filesIn directory (chart.leaves ++ scores.map Leaf.ofScore) := by
  induction scores generalizing chart with
  | nil => exact ⟨h, by simp, by simp⟩
  | cons e scores ih =>
    obtain ⟨path, score⟩ := e
    obtain ⟨hname, hnames⟩ := List.forall_mem_cons.1 hnames
    obtain ⟨hfirst, hrest⟩ := List.pairwise_cons.1 hscores
    have hadd : chart.addPath path score =
        chart.add (names path).dropLast ((names path).getLast hname) score := by
      rw [addPath, List.getLast?_eq_some_getLast hname]
    have hsplit := List.dropLast_concat_getLast hname
    have hperm := leaves_add h (names path).dropLast ((names path).getLast hname) score
    have hfiles := filesIn_add h (names path).dropLast ((names path).getLast hname) score
    rw [hsplit, ← hadd] at hperm
    simp only [hsplit, ← hadd] at hfiles
    have harranged : (chart.addPath path score).ArrangedBy before := by
      rw [hadd]
      refine arrangedBy_add h fun leaf hleaf => ?_
      rw [hsplit]
      exact hlast leaf hleaf _ List.mem_cons_self
    obtain ⟨hwhole, hleaves, hfilesIn⟩ := ih harranged hnames (fun leaf hleaf e he => by
      rcases List.mem_cons.1 (hperm.mem_iff.1 hleaf) with rfl | hleaf
      · exact hfirst e he
      · exact hlast leaf hleaf e (List.mem_cons_of_mem _ he)) hrest
    refine ⟨hwhole, hleaves.trans ?_, fun directory => (hfilesIn directory).trans ?_⟩
    · rw [List.map_cons]
      exact (hperm.append_right _).trans List.perm_middle.symm
    · rw [Leaf.filesIn_append, hfiles, ← Leaf.filesIn_append, List.append_assoc]
      rfl

/-- The chart of some scores has their files, those of each directory in their order. -/
theorem ofScores_leaves {scores : Scores} (hnames : ∀ e ∈ scores, names e.1 ≠ [])
    (hscores : scores.Pairwise fun d e => (Leaf.ofScore d).Before before (Leaf.ofScore e)) :
    (ofScores scores).ArrangedBy before ∧
      (ofScores scores).leaves.Perm (scores.map Leaf.ofScore) ∧
      ∀ directory, Leaf.filesIn directory (ofScores scores).leaves =
        Leaf.filesIn directory (scores.map Leaf.ofScore) :=
  foldl_addPath arrangedBy_empty hnames (by simp) hscores

/-- The chart of scores whose names are texts is in order. -/
theorem tidy_ofScores {scores : Scores} (h : scores.Regular) (htext : scores.AreText) :
    (ofScores scores).ArrangedBy fun file file' => compare file file' = .lt :=
  (ofScores_leaves h.names_ne_nil ((h.increasing_names htext).imp Leaf.before_of_lt)).1

example : (ofScores [(.ofString "a", 3), (.ofString "a/b", 4), (.ofString "c", 0)]).nodes =
    [.directory "a" [.file "b" 4], .file "a" 3, .file "c" 0] := by
  rfl

/-- A chart is read as the tree it stands for, indented or not. -/
theorem read?_chartText (name : String) (scores : Scores) (indent : Bool) :
    Json.read? (scores.chartText name indent) =
      some (ChartNode.directory name (ofScores scores).nodes).toJson := by
  rw [Scores.chartText, toJson_eq, Json.read?_render]

end Chart

/-! ### Listings -/

namespace Scores

/-- The file and the score of a line: the score up to the first space, and the names behind it. -/
def readLine? (line : List Char) : Option Leaf :=
  match Text.cut [' '] line with
  | some (digits, path) =>
    (Decimal.nat? digits).map fun score => (Text.splitString '/' (String.ofList path), score)
  | none => none

/-- The files and the scores of a text in which every line is ended. -/
def readListing? (text : String) : Option (List Leaf) :=
  (text.toList.splitOn '\n').dropLast.mapM readLine?

/-- The characters of a line but the last. -/
def lineChars (e : Path × Nat) : List Char :=
  Nat.toDigits 10 e.2 ++ ' ' :: ("/".intercalate (Chart.names e.1)).toList

theorem toList_listing (scores : Scores) :
    scores.listing.toList = (scores.map lineChars).flatMap (· ++ ['\n']) := by
  rw [listing, String.toList_join, List.flatMap_map, List.flatMap_map]
  refine List.flatMap_congr fun e _ => ?_
  simp [lineChars]

theorem nat?_toDigits (n : Nat) : Decimal.nat? (Nat.toDigits 10 n) = some n := by
  have hdigits : ∀ c ∈ Nat.toDigits 10 n, c.isDigit = true := fun c hc =>
    Nat.isDigit_of_mem_toDigits (by decide) (by decide) hc
  have hvalue : Decimal.value (Nat.toDigits 10 n) = n := Nat.ofDigitChars_ten_toDigits
  have hare : Decimal.areDigits (Nat.toDigits 10 n) = true := by
    simp [Decimal.areDigits, Nat.toDigits_ne_nil, List.all_eq_true.2 hdigits]
  have hplus : ∀ rest, Nat.toDigits 10 n = '+' :: rest → False := fun rest h =>
    absurd (hdigits '+' (h ▸ List.mem_cons_self)) (by decide)
  rw [Decimal.nat?, if_pos hare, hvalue]
  exact hplus

/-- A text is cut at its first space. -/
theorem cut_space {digits : List Char} (h : ' ' ∉ digits) (path : List Char) :
    Text.cut [' '] (digits ++ ' ' :: path) = some (digits, path) := by
  have hself := @Text.cut_append_self [' '] (by decide) path
  rw [List.singleton_append] at hself
  rw [Text.cut_of_notMem h, hself]
  simp

section

variable {e : Path × Nat}

/-- A line of a listing is read as the file it was written for. -/
theorem readLine?_lineChars (hne : Chart.names e.1 ≠ [])
    (hslash : ∀ name ∈ Chart.names e.1, '/' ∉ name.toList) :
    readLine? (lineChars e) = some (Leaf.ofScore e) := by
  have hspace : ' ' ∉ Nat.toDigits 10 e.2 := fun hmem =>
    absurd (Nat.isDigit_of_mem_toDigits (by decide) (by decide) hmem) (by decide)
  have hsep : "/" = String.singleton '/' := rfl
  rw [readLine?, lineChars, cut_space hspace]
  simp only [nat?_toDigits, String.ofList_toList, Option.map_some]
  rw [hsep, Text.splitString_intercalate hne hslash]
  rfl

/-- A line of a listing is one line, where no name has a line end in it. -/
theorem feed_notMem_lineChars (hfeed : ∀ name ∈ Chart.names e.1, '\n' ∉ name.toList) :
    '\n' ∉ lineChars e := by
  have hdigits : '\n' ∉ Nat.toDigits 10 e.2 := fun hmem =>
    absurd (Nat.isDigit_of_mem_toDigits (by decide) (by decide) hmem) (by decide)
  have hjoined : ∀ names : List String, (∀ name ∈ names, '\n' ∉ name.toList) →
      '\n' ∉ ("/".intercalate names).toList := by
    intro names
    induction names with
    | nil => simp
    | cons name names ih =>
      intro hnames
      obtain ⟨hname, hnames⟩ := List.forall_mem_cons.1 hnames
      cases names with
      | nil => simpa using hname
      | cons name' names =>
        rw [String.intercalate_cons_cons]
        simpa [hname] using ih hnames
  rw [lineChars, List.mem_append, List.mem_cons, not_or, not_or]
  exact ⟨hdigits, by decide, hjoined _ hfeed⟩

end

/-- A listing is read as the scores in their order, as they are shown. -/
theorem readListing?_listing {scores : Scores} (h : scores.Regular)
    (hfeed : ∀ e ∈ scores, ∀ c ∈ e.1.components, '\n' ∉ c.text.toList) :
    readListing? scores.listing = some (scores.map Leaf.ofScore) := by
  have hshown : ∀ e ∈ scores, ∀ name ∈ Chart.names e.1, '\n' ∉ name.toList := by
    intro e he name hname hmem
    obtain ⟨c, hc, rfl⟩ := List.mem_map.1 hname
    exact hfeed e he c hc (Text.mem_of_mem_shown (by decide) (by decide) hmem)
  have hlines : ∀ l ∈ scores.map lineChars, '\n' ∉ l := by
    simp only [List.forall_mem_map]
    exact fun e he => feed_notMem_lineChars (hshown e he)
  have hread : ∀ scores' : Scores, (∀ e ∈ scores', e ∈ scores) →
      (scores'.map lineChars).mapM readLine? = some (scores'.map Leaf.ofScore) := by
    intro scores'
    induction scores' with
    | nil => exact fun _ => rfl
    | cons e scores' ih =>
      intro hsub
      obtain ⟨he, hsub⟩ := List.forall_mem_cons.1 hsub
      rw [List.map_cons, List.mapM_cons, ih hsub,
        readLine?_lineChars (h.names_ne_nil e he) (h.slash_notMem e he)]
      rfl
  rw [readListing?, toList_listing, Text.splitOn_lines hlines, List.dropLast_concat]
  exact hread scores fun _ => id

end Scores

/-! ### The result -/

/-- **Charts and listings show the scores.** The chart of a project with regular scores is read as
one tree, indented or not: a directory of the project's name with a leaf for each file of the scores,
found along what is shown of its path, so that the scores have the same sum. In every directory the
directories come first, in name order with each name once, and every directory in it has a file beneath
it; then come the files, in the order of the scores. A listing is read as the scores in their order,
with what is shown of the paths, where no name has a line end in it. Where the names are texts, all of
this is about the paths as they are: each has one leaf, and files are in name order. -/
theorem chart_faithful (name : String) (scores : Scores) (h : scores.Regular) :
    (∃ children : List ChartNode,
      (∀ indent, Json.read? (scores.chartText name indent) =
        some (ChartNode.directory name children).toJson) ∧
      (ChartNode.rowLeaves children).Perm (scores.map Leaf.ofScore) ∧
      (∀ directory, Leaf.filesIn directory (ChartNode.rowLeaves children) =
        Leaf.filesIn directory (scores.map Leaf.ofScore)) ∧
      ((ChartNode.rowLeaves children).map Prod.snd).sum = (scores.map Prod.snd).sum ∧
      (ChartNode.directory name children).Arranged ∧
      (scores.AreText →
        (ChartNode.rowLeaves children).Perm (scores.map Leaf.exact) ∧
        ((ChartNode.rowLeaves children).map Prod.fst).Nodup ∧
        (ChartNode.directory name children).Tidy)) ∧
    ((∀ e ∈ scores, ∀ c ∈ e.1.components, '\n' ∉ c.text.toList) →
      Scores.readListing? scores.listing = some (scores.map Leaf.ofScore) ∧
      (scores.AreText → Scores.readListing? scores.listing = some (scores.map Leaf.exact))) := by
  have hany : scores.Pairwise fun d e =>
      (Leaf.ofScore d).Before (fun _ _ => True) (Leaf.ofScore e) :=
    List.pairwise_of_forall fun _ _ _ _ _ _ _ => trivial
  obtain ⟨harranged, hleaves, hfilesIn⟩ := Chart.ofScores_leaves h.names_ne_nil hany
  have hperm : (ChartNode.rowLeaves (Chart.ofScores scores).nodes).Perm
      (scores.map Leaf.ofScore) := hleaves
  refine ⟨⟨(Chart.ofScores scores).nodes, Chart.read?_chartText name scores, hperm, hfilesIn, ?_,
    harranged.tree name, fun htext => ⟨?_, ?_, (Chart.tidy_ofScores h htext).tree name⟩⟩, fun hfeed => ?_⟩
  · rw [(hperm.map Prod.snd).sum_nat, List.map_map]
    rfl
  · rw [htext.map_exact]
    exact hperm
  · rw [(hperm.map Prod.fst).nodup_iff, List.map_map]
    refine List.pairwise_map.2 ((h.increasing_names htext).imp fun {d e} hlt heq => ?_)
    have hnames : Chart.names d.1 = Chart.names e.1 := heq
    rw [hnames, Std.ReflOrd.compare_self] at hlt
    cases hlt
  · have hlisting := Scores.readListing?_listing h hfeed
    exact ⟨hlisting, fun htext => htext.map_exact ▸ hlisting⟩

/-- A file and a directory of one name, a name with a space in it, and a score of zero. -/
theorem chart_faithful_same_name :
    let scores : Scores := [(.ofString "a", 3), (.ofString "a/b", 4), (.ofString "c/d e", 0)]
    let leaves : List Leaf := [(["a"], 3), (["a", "b"], 4), (["c", "d e"], 0)]
    scores.Regular ∧ scores.AreText ∧
      (∀ e ∈ scores, ∀ c ∈ e.1.components, '\n' ∉ c.text.toList) ∧
      (∃ children : List ChartNode,
        (∀ indent, Json.read? (scores.chartText "core" indent) =
          some (ChartNode.directory "core" children).toJson) ∧
        (ChartNode.rowLeaves children).Perm leaves ∧
        (ChartNode.directory "core" children).Tidy) ∧
      Scores.readListing? scores.listing = some leaves := by
  intro scores leaves
  have hregular : scores.Regular :=
    ⟨by unfold Ordered.Increasing; decide +kernel, by decide, by decide⟩
  have htext : scores.AreText := by unfold Scores.AreText; decide
  have hfeed : ∀ e ∈ scores, ∀ c ∈ e.1.components, '\n' ∉ c.text.toList := by decide
  obtain ⟨⟨children, hread, -, -, -, -, hexact⟩, hlisting⟩ := chart_faithful "core" scores hregular
  obtain ⟨hleaves, -, htidy⟩ := hexact htext
  exact ⟨hregular, htext, hfeed, ⟨children, hread, hleaves, htidy⟩, (hlisting hfeed).2 htext⟩

/-- Names that are no texts are not kept. Two files whose names differ in a byte that belongs to no
character are shown alike: the chart has two leaves of one name, which is neither's, and the listing has
two lines of it. Of the last two files the first has the smaller name, but the greater one is shown of
it, so the files are not in name order either. -/
theorem names_shown_alike :
    let scores : Scores := [(⟨[Text.marred "caf" 0xE8 ".java"]⟩, 1),
      (⟨[Text.marred "caf" 0xE9 ".java"]⟩, 2), (⟨["😀.java"]⟩, 3),
      (⟨[Text.marred "" 0xFF ".java"]⟩, 4)]
    let children : List ChartNode := [.file "caf\ufffd.java" 1, .file "caf\ufffd.java" 2,
      .file "😀.java" 3, .file "\ufffd.java" 4]
    scores.Regular ∧
      (scores.map fun e => Text.nameBytes e.1.text.toList) =
        [[0x63, 0x61, 0x66, 0xE8, 0x2E, 0x6A, 0x61, 0x76, 0x61],
          [0x63, 0x61, 0x66, 0xE9, 0x2E, 0x6A, 0x61, 0x76, 0x61],
          [0xF0, 0x9F, 0x98, 0x80, 0x2E, 0x6A, 0x61, 0x76, 0x61],
          [0xFF, 0x2E, 0x6A, 0x61, 0x76, 0x61]] ∧
      (∀ indent, Json.read? (scores.chartText "core" indent) =
        some (ChartNode.directory "core" children).toJson) ∧
      ¬ (ChartNode.rowLeaves children).Perm (scores.map Leaf.exact) ∧
      ¬ ((ChartNode.rowLeaves children).map Prod.fst).Nodup ∧
      ¬ (children.map ChartNode.name).Pairwise (fun file file' => compare file file' ≠ .gt) ∧
      Scores.readListing? scores.listing = some (ChartNode.rowLeaves children) := by
  intro scores children
  have hregular : scores.Regular :=
    ⟨by unfold Ordered.Increasing; decide +kernel, by decide +kernel, by decide +kernel⟩
  have hnames : ∀ start b, Path.isName (Text.marred start b ".java") = true →
      Text.isText start = true → 0x80 ≤ b.toNat →
      Chart.names ⟨[Text.marred start b ".java"]⟩ =
        [String.ofList (start.toList ++ Text.replacement :: ".java".toList)] := by
    intro start b hname hstart hb
    have hdot : ".java".toList.head? = some '.' := by decide
    have hascii : ∀ c, ".java".toList.head? = some c → c.toNat < 0x80 := by
      intro c hc
      rw [← Option.some.inj (hdot.symm.trans hc)]
      decide
    rw [Chart.names_of_isName hname, Text.shown_marred hstart hb (by decide) hascii]
  have hgrave : Chart.names ⟨[Text.marred "caf" 0xE8 ".java"]⟩ = ["caf\ufffd.java"] :=
    (hnames "caf" 0xE8 (by decide +kernel) (by decide) (by decide)).trans (by decide +kernel)
  have hacute : Chart.names ⟨[Text.marred "caf" 0xE9 ".java"]⟩ = ["caf\ufffd.java"] :=
    (hnames "caf" 0xE9 (by decide +kernel) (by decide) (by decide)).trans (by decide +kernel)
  have hlast : Chart.names ⟨[Text.marred "" 0xFF ".java"]⟩ = ["\ufffd.java"] :=
    (hnames "" 0xFF (by decide +kernel) (by decide) (by decide)).trans (by decide +kernel)
  have htext : Chart.names ⟨["😀.java"]⟩ = ["😀.java"] := Chart.names_of_isText (by decide +kernel)
  have hchart : (Chart.ofScores scores).nodes = children := by
    simp only [scores, Chart.ofScores, List.foldl_cons, List.foldl_nil, Chart.addPath, hgrave, hacute,
      htext, hlast]
    rfl
  refine ⟨hregular, by decide +kernel, fun indent => ?_, by decide +kernel, by decide +kernel,
    by decide +kernel, ?_⟩
  · rw [Chart.read?_chartText, hchart]
  · rw [Scores.readListing?_listing hregular (by decide +kernel)]
    simp only [scores, List.map_cons, List.map_nil, Leaf.ofScore, hgrave, hacute, htext, hlast]
    rfl

end Grove
