import Grove.Settings.Load

/-!
# Sections under assignments

Settings are a table of sections, each a table of keys, built by assignments in a row. An assignment
gives a section as a whole, a single key of it, or something within a key. As long as sections are
given as tables and no place of a list is set, every assignment either leaves a key alone, gives it
a value, or makes a table of it, and what was given last is what is found.

## What is proved

* `Value.Orderly.set` — tables keep one entry a key, at every depth.
* `given?_flatten` — of layers over each other the highest that gives a key a value decides.
* `held_laid` — under a key stands what was given last, unless a table took its place.
* `isTable_sectionOf_laid` — a section stays a table as long as it is given as one.
-/

namespace Grove.Settings

open KeyPath

namespace Value

/-- Whether a value is a table. -/
def isTable : Value → Bool
  | table _ => true
  | _ => false

theorem isTable_iff {v : Value} : v.isTable = true ↔ ∃ es, v = .table es := by
  cases v <;> simp [isTable]

/-! ### Orderly values -/

/-- A value whose tables have one entry a key, at every depth that keys lead to. -/
inductive Orderly : Value → Prop where
  | table {es : List (String × Value)} (distinct : (es.map (·.1)).Nodup)
      (below : ∀ e ∈ es, Orderly e.2) : Orderly (.table es)
  | other {v : Value} (h : v.isTable = false) : Orderly v

namespace Orderly

theorem distinct_entries {v : Value} (h : Orderly v) : (v.entries.map (·.1)).Nodup := by
  cases h with
  | table distinct _ => exact distinct
  | other h => cases v <;> simp_all [isTable, entries]

theorem below_entries {v : Value} (h : Orderly v) : ∀ e ∈ v.entries, Orderly e.2 := by
  cases h with
  | table _ below => exact below
  | other h => cases v <;> simp_all [isTable, entries]

end Orderly

end Value

open Value

/-! ### Entries -/

section

variable {es : List (String × Value)} {name : String} {v : Value}

theorem mem_of_lookup (h : es.lookup name = some v) : (name, v) ∈ es := by
  obtain ⟨before, after, rfl, -⟩ := List.lookup_eq_some_iff.1 h
  exact List.mem_append_right _ List.mem_cons_self

theorem lookup_of_mem (hes : (es.map (·.1)).Nodup) (h : (name, v) ∈ es) :
    es.lookup name = some v := by
  obtain ⟨before, after, rfl⟩ := List.append_of_mem h
  refine List.lookup_eq_some_iff.2 ⟨before, after, rfl, fun e he => ?_⟩
  rw [List.map_append, List.map_cons] at hes
  have hne : e.1 ≠ name := (List.nodup_append.1 hes).2.2 e.1 (List.mem_map_of_mem he) name
    List.mem_cons_self
  simpa using hne.symm

theorem mem_putEntry {e : String × Value} (h : e ∈ putEntry name v es) :
    e = (name, v) ∨ e ∈ es := by
  induction es with
  | nil => exact .inl (List.mem_singleton.1 h)
  | cons e' rest ih =>
    rw [putEntry] at h
    split at h
    · next hname =>
      rcases List.mem_cons.1 h with rfl | h
      · exact .inl (by rw [hname])
      · exact .inr (List.mem_cons_of_mem _ h)
    · rcases List.mem_cons.1 h with rfl | h
      · exact .inr List.mem_cons_self
      · exact (ih h).imp_right (List.mem_cons_of_mem _)

theorem distinct_putEntry (hes : (es.map (·.1)).Nodup) :
    ((putEntry name v es).map (·.1)).Nodup := by
  induction es with
  | nil => simp [putEntry]
  | cons e rest ih =>
    obtain ⟨hfirst, hrest⟩ := List.nodup_cons.1 hes
    rw [putEntry]
    split
    · exact List.nodup_cons.2 ⟨hfirst, hrest⟩
    · next hname =>
      refine List.nodup_cons.2 ⟨fun hmem => ?_, ih hrest⟩
      obtain ⟨e', he', heq⟩ := List.mem_map.1 hmem
      rcases mem_putEntry he' with rfl | he'
      · exact hname heq
      · exact hfirst (heq ▸ List.mem_map_of_mem he')

theorem lookup_putEntry (key : String) :
    (putEntry name v es).lookup key = if key = name then some v else es.lookup key := by
  split
  · next h => rw [h, lookup_putEntry_self]
  · next h => rw [lookup_putEntry_of_ne h]

end

namespace Value.Orderly

theorem putEntry {es : List (String × Value)} {name : String} {v : Value}
    (hes : Orderly (.table es)) (hv : Orderly v) :
    Orderly (.table (KeyPath.putEntry name v es)) := by
  refine .table (distinct_putEntry hes.distinct_entries) fun e he => ?_
  rcases mem_putEntry he with rfl | he
  · exact hv
  · exact hes.below_entries e he

/-- The entries of an orderly value make an orderly table. -/
theorem entries {v : Value} (h : Orderly v) : Orderly (.table v.entries) :=
  .table h.distinct_entries h.below_entries

theorem lookup {v : Value} (h : Orderly v) (name : String) :
    Orderly ((v.entries.lookup name).getD .absent) := by
  cases hlookup : v.entries.lookup name with
  | none => exact .other rfl
  | some x => exact h.below_entries _ (mem_of_lookup hlookup)

theorem ground {v : Value} (h : Orderly v) : Orderly (ground v) := by
  cases v with
  | absent => exact .table List.nodup_nil (by simp)
  | _ => exact h

mutual

theorem merge {old : Value} (h : Orderly old) : ∀ new, Orderly (KeyPath.merge old new)
  | .table es => by
    rw [KeyPath.merge]
    exact mergeEntries h.ground es
  | .absent | .flag _ | .integer _ | .real _ | .text _ | .list _ => .other rfl

theorem mergeEntries {old : Value} (h : Orderly old) :
    ∀ es, Orderly (KeyPath.mergeEntries old es)
  | [] => h
  | (name, v) :: rest => by
    rw [KeyPath.mergeEntries]
    exact mergeEntries (h.entries.putEntry (merge (h.lookup name) v)) rest

end

/-- Tables keep one entry a key whatever is set. -/
theorem change {f : Value → Value} (hf : ∀ v, Orderly v → Orderly (f v)) (steps : List KeyStep)
    {v : Value} (h : Orderly v) : Orderly (KeyPath.change f steps v) := by
  induction steps generalizing v with
  | nil => exact hf v h
  | cons step rest ih =>
    cases step with
    | key name => exact h.entries.putEntry (ih (h.lookup name))
    | index i => exact .other rfl

theorem set {root : Value} (h : Orderly root) (p : KeyPath) (new : Value) :
    Orderly (p.set new root) :=
  h.change (fun _ hv => hv.merge new) _

end Value.Orderly

/-! ### Assignments -/

/-- What assignments in a row make of a value. -/
def laid (root : Value) (layer : List (KeyPath × Value)) : Value :=
  layer.foldl (fun root (p, v) => p.set v root) root

theorem laid_append (root : Value) (lower upper : List (KeyPath × Value)) :
    laid root (lower ++ upper) = laid (laid root lower) upper :=
  List.foldl_append

theorem orderly_laid {root : Value} (h : root.Orderly) (layer : List (KeyPath × Value)) :
    (laid root layer).Orderly := by
  induction layer generalizing root with
  | nil => exact h
  | cons a rest ih => exact ih (h.set a.1 a.2)

/-- Assignments to nothing make an orderly table. -/
theorem exists_laid (layer : List (KeyPath × Value)) :
    ∃ es, laid (.table []) layer = .table es ∧ (Value.table es).Orderly := by
  have hnothing : (Value.table []).Orderly := .table List.nodup_nil (List.forall_mem_nil _)
  have htable : ∀ root : List (String × Value), ∃ es, laid (.table root) layer = .table es := by
    induction layer with
    | nil => exact fun root => ⟨root, rfl⟩
    | cons a rest ih => exact fun root => ih _
  obtain ⟨es, hes⟩ := htable []
  exact ⟨es, hes, hes ▸ orderly_laid hnothing layer⟩

/-- What stands under a section. -/
def sectionOf (group : String) (root : Value) : Value :=
  (root.entries.lookup group).getD .absent

/-- What stands under a key of a section, if anything does. -/
def slot (group key : String) (root : Value) : Option Value :=
  (sectionOf group root).entries.lookup key

theorem lookup_set (p : KeyPath) (new root : Value) (group : String) :
    (p.set new root).entries.lookup group =
      if group = p.first then some (change (KeyPath.merge · new) p.rest (sectionOf p.first root))
      else root.entries.lookup group := by
  rw [KeyPath.set, change, entries_table, lookup_putEntry]
  rfl

theorem sectionOf_set (p : KeyPath) (new root : Value) (group : String) :
    sectionOf group (p.set new root) =
      if group = p.first then change (KeyPath.merge · new) p.rest (sectionOf p.first root)
      else sectionOf group root := by
  rw [sectionOf, lookup_set]
  split <;> rfl

/-- Whether an assignment leaves a section a table and sets no place of a list under a key. -/
def Regular (group key : String) (a : KeyPath × Value) : Bool :=
  if a.1.first = group then
    match a.1.rest with
    | [] => a.2.isTable
    | .index _ :: _ => false
    | .key name :: .index _ :: _ => name ≠ key
    | .key _ :: _ => true
  else true

/-- The keys that an assignment gives a section, with their values. -/
def keysGiven (group : String) (a : KeyPath × Value) : List (String × Value) :=
  if a.1.first = group then
    match a.1.rest with
    | [] => a.2.entries
    | [.key name] => [(name, a.2)]
    | _ => []
  else []

/-- The last value other than a table among those of a key. -/
def last? (key : String) (es : List (String × Value)) : Option Value :=
  (es.filter fun e => e.1 = key && !e.2.isTable).getLast?.map (·.2)

/-- The value that a layer gives a key of a section: the last one that is not a table. -/
def given? (group key : String) (layer : List (KeyPath × Value)) : Option Value :=
  last? key (layer.flatMap (keysGiven group))

theorem last?_append (key : String) (es es' : List (String × Value)) :
    last? key (es ++ es') = (last? key es').or (last? key es) := by
  rw [last?, List.filter_append, List.getLast?_append, Option.map_or]
  rfl

theorem last?_cons (key : String) (e : String × Value) (es : List (String × Value)) :
    last? key (e :: es) =
      (last? key es).or (if e.1 = key ∧ e.2.isTable = false then some e.2 else none) := by
  rw [← List.singleton_append, last?_append]
  congr 1
  rw [last?]
  by_cases h : e.1 = key ∧ e.2.isTable = false <;> simp_all

theorem given?_append (group key : String) (lower upper : List (KeyPath × Value)) :
    given? group key (lower ++ upper) = (given? group key upper).or (given? group key lower) := by
  rw [given?, List.flatMap_append, last?_append]
  rfl

/-- Of layers over each other the highest that gives a key a value decides. -/
theorem given?_flatten (group key : String) (layers : List (List (KeyPath × Value))) :
    given? group key layers.flatten = layers.reverse.findSome? (given? group key) := by
  induction layers with
  | nil => rfl
  | cons layer rest ih =>
    rw [List.flatten_cons, given?_append, ih, List.reverse_cons, List.findSome?_append]
    simp

/-! ### What stands under a key -/

/-- Under a key stands what is expected, or a table. -/
def Held (found expected : Option Value) : Prop :=
  (∃ v, found = some v ∧ v.isTable = true) ∨ found = expected

theorem isTable_mergeEntries {old : Value} (h : old.isTable = true) (es : List (String × Value)) :
    (mergeEntries old es).isTable = true := by
  induction es generalizing old with
  | nil => exact h
  | cons e rest ih => exact ih rfl

/-- A table that is set over something leaves a table, unless it has no entries. -/
theorem mergeEntries_cases (old : Value) (es : List (String × Value)) :
    (mergeEntries old es).isTable = true ∨ mergeEntries old es = old := by
  cases es with
  | nil => exact .inr rfl
  | cons e rest => exact .inl (isTable_mergeEntries rfl rest)

/-- A value set over what stands under a key takes its place, unless it is a table. -/
theorem held_merge {found expected : Option Value} (h : Held found expected) (v : Value) :
    Held (some (KeyPath.merge (found.getD .absent) v))
      (if v.isTable = false then some v else expected) := by
  cases v with
  | table es =>
    rw [if_neg (by simp [isTable]), KeyPath.merge]
    rcases mergeEntries_cases (ground (found.getD .absent)) es with htable | hsame
    · exact .inl ⟨_, rfl, htable⟩
    · rw [hsame]
      rcases h with ⟨x, rfl, hx⟩ | rfl
      · obtain ⟨es', rfl⟩ := isTable_iff.1 hx
        exact .inl ⟨_, rfl, rfl⟩
      · cases found with
        | none => exact .inl ⟨_, rfl, rfl⟩
        | some x =>
          cases x with
          | absent => exact .inl ⟨_, rfl, rfl⟩
          | _ => exact .inr rfl
  | _ => exact .inr rfl

theorem held_putEntry {key : String} {es : List (String × Value)} {expected : Option Value}
    (h : Held (es.lookup key) expected) (name : String) (v : Value) :
    Held ((putEntry name (KeyPath.merge ((es.lookup name).getD .absent) v) es).lookup key)
      ((last? key [(name, v)]).or expected) := by
  rw [lookup_putEntry, last?_cons]
  by_cases hname : key = name
  · subst hname
    have hset := held_merge h v
    rw [if_pos rfl]
    by_cases htable : v.isTable = false <;> simpa [last?, htable] using hset
  · simpa [last?, hname, Ne.symm hname] using h

/-- Entries set in a section one after the other leave the last of a key. -/
theorem held_mergeEntries {key : String} {old : Value} {expected : Option Value}
    (h : Held (old.entries.lookup key) expected) (es : List (String × Value)) :
    Held ((mergeEntries old es).entries.lookup key) ((last? key es).or expected) := by
  induction es generalizing old expected with
  | nil => exact h
  | cons e rest ih =>
    rw [← List.singleton_append, last?_append, Option.or_assoc]
    exact ih (held_putEntry h e.1 e.2)

theorem entries_ground (v : Value) : (ground v).entries = v.entries := by
  cases v <;> rfl

/-- An assignment leaves under a key the value it gives it, or what stood there, or a table. -/
theorem held_set {group key : String} {root : Value} {expected : Option Value}
    (h : Held (slot group key root) expected) {a : KeyPath × Value}
    (ha : Regular group key a = true) :
    Held (slot group key (a.1.set a.2 root)) ((last? key (keysGiven group a)).or expected) := by
  obtain ⟨⟨first, rest⟩, v⟩ := a
  rw [slot, sectionOf_set]
  by_cases hgroup : first = group
  · subst hgroup
    simp only [Regular, keysGiven, if_true] at ha ⊢
    match rest, ha with
    | [], ha =>
      obtain ⟨es, rfl⟩ := isTable_iff.1 ha
      exact held_mergeEntries (by rw [entries_ground]; exact h) es
    | [.key name], _ => exact held_putEntry h name v
    | .key name :: .key name' :: rest, _ =>
      simp only [change, entries_table, lookup_putEntry]
      split
      · exact .inl ⟨_, rfl, rfl⟩
      · exact h
    | .key name :: .index i :: rest, ha =>
      have hname : key ≠ name := fun heq => by simp [heq] at ha
      simp only [change, entries_table, lookup_putEntry, if_neg hname]
      exact h
  · simp only [keysGiven, if_neg hgroup, if_neg (Ne.symm hgroup)]
    exact h

/-- Under a key stands what a layer gives it, or what stood there, or a table. -/
theorem held_laid {group key : String} {root : Value} {expected : Option Value}
    (h : Held (slot group key root) expected) {layer : List (KeyPath × Value)}
    (hlayer : ∀ a ∈ layer, Regular group key a = true) :
    Held (slot group key (laid root layer)) ((given? group key layer).or expected) := by
  induction layer generalizing root expected with
  | nil => exact h
  | cons a rest ih =>
    obtain ⟨ha, hrest⟩ := List.forall_mem_cons.1 hlayer
    have hgiven : given? group key (a :: rest) =
        (given? group key rest).or (last? key (keysGiven group a)) := by
      rw [← List.singleton_append, given?_append]
      simp [given?]
    rw [hgiven, Option.or_assoc]
    exact ih (held_set h ha) hrest

/-- A section stays a table, once there, as long as it is given as one. -/
theorem isTable_sectionOf_laid {group key : String} {root : Value}
    (h : ∀ v, root.entries.lookup group = some v → v.isTable = true)
    {layer : List (KeyPath × Value)} (hlayer : ∀ a ∈ layer, Regular group key a = true) :
    ∀ v, (laid root layer).entries.lookup group = some v → v.isTable = true := by
  induction layer generalizing root with
  | nil => exact h
  | cons a rest ih =>
    obtain ⟨ha, hrest⟩ := List.forall_mem_cons.1 hlayer
    refine ih (fun v hv => ?_) hrest
    obtain ⟨⟨first, steps⟩, new⟩ := a
    rw [lookup_set] at hv
    by_cases hgroup : group = first
    · subst hgroup
      rw [if_pos rfl, Option.some.injEq] at hv
      subst hv
      simp only [Regular, if_true] at ha
      match steps, ha with
      | [], ha =>
        obtain ⟨es, rfl⟩ := isTable_iff.1 ha
        refine isTable_mergeEntries ?_ es
        cases hlookup : root.entries.lookup group with
        | none => simp [sectionOf, hlookup, ground, isTable]
        | some x =>
          obtain ⟨es', rfl⟩ := isTable_iff.1 (h x hlookup)
          simp [sectionOf, hlookup, ground, isTable]
      | .key name :: rest, _ => rfl
    · rw [if_neg hgroup] at hv
      exact h v hv

end Grove.Settings
