import Grove.Proofs.Paths

/-!
# Paths resolved in their text

A path can be resolved without a look at files: `.` adds nothing, `..` takes back the name before
it, and the top directory starts anew. Where there is no name to take back `..` stays, except that
the top directory encloses itself. A path lies within a directory when it resolves to the directory
followed by names.

## What is proved

* `resolved_child` — an entry is resolved from where its directory is, unless it is absolute.
* `within_child_of_tail` — what a text leads to within the last names of a directory it leads to
  within every directory that ends in these names.
* `within_child_of_isName` — a proper name leads into every directory.
-/

namespace Grove

namespace Component

/-- Where a step leads from a place, which is told by the steps to it. -/
def stepFrom (place : List Component) : Component → List Component
  | root => [root]
  | here => place
  | up =>
    match place.getLast? with
    | some (name _) => place.dropLast
    | some root => place
    | _ => place ++ [up]
  | name s => place ++ [name s]

/-- Whether a step leads to an entry. -/
def isName : Component → Bool
  | name _ => true
  | _ => false

theorem exists_names_iff {steps : List Component} :
    (∃ names : List String, steps = names.map name) ↔ ∀ c ∈ steps, c.isName := by
  induction steps with
  | nil => simp
  | cons c steps ih =>
    rw [List.forall_mem_cons, ← ih]
    constructor
    · rintro ⟨names, hnames⟩
      cases names with
      | nil => simp at hnames
      | cons s names =>
        obtain ⟨rfl, rfl⟩ := List.cons.inj hnames
        exact ⟨rfl, names, rfl⟩
    · rintro ⟨hc, names, rfl⟩
      cases c with
      | name s => exact ⟨s :: names, rfl⟩
      | _ => simp [isName] at hc

theorem root_mem_stepFrom {place : List Component} (h : root ∈ place) (c : Component) :
    root ∈ c.stepFrom place := by
  cases c with
  | root => exact List.mem_singleton_self root
  | here => exact h
  | name s => exact List.mem_append_left _ h
  | up =>
    rcases List.eq_nil_or_concat place with rfl | ⟨init, last, rfl⟩
    · simp at h
    · cases last <;> simp_all [stepFrom]

theorem up_mem_stepFrom {place : List Component} (h : up ∈ place) {c : Component} (hc : c ≠ root) :
    up ∈ c.stepFrom place := by
  cases c with
  | root => exact absurd rfl hc
  | here => exact h
  | name s => exact List.mem_append_left _ h
  | up =>
    rcases List.eq_nil_or_concat place with rfl | ⟨init, last, rfl⟩
    · simp at h
    · cases last <;> simp_all [stepFrom]

/-- A step that stays below a place of names is the same step below any other place. -/
theorem stepFrom_append {names : List String} {c : Component} (hc : c ≠ root)
    (hup : up ∉ c.stepFrom (names.map name)) :
    ∃ names' : List String, c.stepFrom (names.map name) = names'.map name ∧
      ∀ base, c.stepFrom (base ++ names.map name) = base ++ names'.map name := by
  cases c with
  | root => exact absurd rfl hc
  | here => exact ⟨names, rfl, fun _ => rfl⟩
  | name s => exact ⟨names ++ [s], by simp [stepFrom], by simp [stepFrom]⟩
  | up =>
    rcases List.eq_nil_or_concat names with rfl | ⟨init, last, rfl⟩
    · simp [stepFrom] at hup
    · refine ⟨init, by simp [stepFrom], fun base => ?_⟩
      rw [List.concat_eq_append, List.map_append, ← List.append_assoc]
      simp [stepFrom]

end Component

namespace Path

open Component

/-- Where steps lead from a place. -/
def walk (place steps : List Component) : List Component :=
  steps.foldl Component.stepFrom place

/-- Where a path leads by its text alone. -/
def resolved (p : Path) : List Component :=
  walk [] p.components

/-- Whether a path leads to something below a directory, or to the directory. -/
def Within (p dir : Path) : Prop :=
  ∃ names : List String, p.resolved = dir.resolved ++ names.map .name

/-! ### Steps -/

@[simp] theorem walk_append (place steps steps' : List Component) :
    walk place (steps ++ steps') = walk (walk place steps) steps' :=
  List.foldl_append

theorem root_mem_walk {place : List Component} (h : root ∈ place) (steps : List Component) :
    root ∈ walk place steps := by
  induction steps generalizing place with
  | nil => exact h
  | cons c steps ih => exact ih (root_mem_stepFrom h c)

theorem up_mem_walk {place steps : List Component} (h : up ∈ place) (hsteps : root ∉ steps) :
    up ∈ walk place steps := by
  induction steps generalizing place with
  | nil => exact h
  | cons c steps ih =>
    obtain ⟨hc, hsteps⟩ := not_or.1 fun h => hsteps (List.mem_cons.2 h)
    exact ih (up_mem_stepFrom h (Ne.symm hc)) hsteps

/-- Steps that lead from names to names lead on in the same way from any place that ends in the
first. -/
theorem walk_base_append {names names' : List String} {steps : List Component}
    (hsteps : root ∉ steps) (h : walk (names.map .name) steps = names'.map .name)
    (base : List Component) :
    walk (base ++ names.map .name) steps = base ++ names'.map .name := by
  induction steps generalizing names with
  | nil =>
    have hnames : names.map Component.name = names'.map .name := h
    rw [hnames]
    rfl
  | cons c steps ih =>
    obtain ⟨hc, hsteps⟩ := not_or.1 fun h => hsteps (List.mem_cons.2 h)
    have hup : up ∉ c.stepFrom (names.map .name) := fun hmem => by
      have hkept : up ∈ walk (c.stepFrom (names.map .name)) steps := up_mem_walk hmem hsteps
      rw [show walk (c.stepFrom (names.map .name)) steps = names'.map .name from h] at hkept
      simp at hkept
    obtain ⟨between, hfirst, heach⟩ := stepFrom_append (Ne.symm hc) hup
    have hfirst' : walk (names.map .name) (c :: steps) = walk (between.map .name) steps :=
      congrArg (walk · steps) hfirst
    have heach' : walk (base ++ names.map .name) (c :: steps) =
        walk (base ++ between.map .name) steps := congrArg (walk · steps) (heach base)
    rw [heach', ih hsteps (hfirst' ▸ h)]

/-! ### Entries -/

theorem root_not_mem_pieces (pieces : List String) :
    root ∉ pieces.filterMap Component.ofPiece? := by
  intro h
  obtain ⟨piece, -, hroot⟩ := List.mem_filterMap.1 h
  rw [ofPiece?] at hroot
  split at hroot
  · simp at hroot
  · split at hroot <;> simp at hroot

/-- A path that does not start with a slash starts from the current directory. -/
theorem components_of_ne_empty {first : String} (h : first ≠ "") (rest : List String) :
    components ⟨first :: rest⟩ =
      (if first = "." then [here] else []) ++ (first :: rest).filterMap Component.ofPiece? := by
  by_cases hdot : first = "."
  · simp [components, leading?, hdot, Component.ofPiece?]
  · rw [components, if_neg hdot, List.filterMap_cons]
    simp only [leading?, h, hdot, if_false]
    cases Component.ofPiece? first <;> rfl

/-- Only a slash in front makes a path absolute. -/
theorem isAbsolute_iff {p : Path} : p.isAbsolute = true ↔
    ∃ piece rest, p.pieces = "" :: piece :: rest := by
  obtain ⟨pieces⟩ := p
  rw [isAbsolute, decide_eq_true_iff]
  constructor
  · intro h
    cases pieces with
    | nil => simp [components] at h
    | cons first rest =>
      by_cases hfirst : first = ""
      · cases rest with
        | nil => simp [components, leading?, hfirst] at h
        | cons piece rest => exact ⟨piece, rest, by rw [hfirst]⟩
      · have hmem := List.mem_of_mem_head? (Option.mem_def.2 h)
        rw [components_of_ne_empty hfirst] at hmem
        rcases List.mem_append.1 hmem with hmem | hmem
        · split at hmem <;> simp at hmem
        · exact absurd hmem (root_not_mem_pieces _)
  · rintro ⟨piece, rest, rfl⟩
    simp [components, leading?]

/-- A path that is not absolute leads on by its pieces. -/
theorem walk_components {p : Path} (h : p.isAbsolute = false) (place : List Component) :
    walk place p.components = walk place (p.pieces.filterMap Component.ofPiece?) := by
  obtain ⟨pieces⟩ := p
  cases pieces with
  | nil => rfl
  | cons first rest =>
    by_cases hfirst : first = ""
    · cases rest with
      | nil => simp [components, leading?, hfirst, Component.ofPiece?]
      | cons piece rest =>
        rw [isAbsolute_iff.2 ⟨piece, rest, by rw [hfirst]⟩] at h
        simp at h
    · rw [components_of_ne_empty hfirst]
      split <;> rfl

theorem root_mem_resolved {p : Path} (h : p.isAbsolute = true) : root ∈ p.resolved := by
  rw [isAbsolute, decide_eq_true_iff, List.head?_eq_some_iff] at h
  obtain ⟨steps, hsteps⟩ := h
  rw [resolved, hsteps]
  exact root_mem_walk (List.mem_singleton_self root) steps

/-- Pieces after those of a path add their steps, where the path is not the empty text. -/
theorem components_append {first : String} {rest : List String} (hne : first :: rest ≠ [""])
    (pieces : List String) :
    components ⟨first :: rest ++ pieces⟩ =
      components ⟨first :: rest⟩ ++ pieces.filterMap Component.ofPiece? := by
  have hlead : leading? first (rest ++ pieces) = leading? first rest := by
    by_cases hfirst : first = ""
    · have hrest : rest ≠ [] := by
        rintro rfl
        exact hne (by rw [hfirst])
      simp [leading?, hfirst, hrest]
    · simp [leading?, hfirst]
  simp [components, hlead]

/-- A slash at the end of a path may be left out before other pieces. -/
theorem components_append_slash {first : String} {rest pieces : List String}
    (hpieces : pieces ≠ []) :
    components ⟨first :: rest ++ pieces⟩ =
      components ⟨first :: rest ++ [""]⟩ ++ pieces.filterMap Component.ofPiece? := by
  simp [components, leading?, hpieces, Component.ofPiece?]

/-- What a path leads to from a directory: it is resolved from where the directory is, unless it is
absolute. -/
theorem resolved_join (p : Path) {q : Path} (hq : q.pieces ≠ []) :
    (p.join q).resolved = if q.isAbsolute then q.resolved else walk p.resolved q.components := by
  by_cases habsolute : q.isAbsolute = true
  · obtain ⟨piece, rest, hpieces⟩ := isAbsolute_iff.1 habsolute
    rw [if_pos habsolute, join]
    simp only [hpieces]
  · have hrelative : q.isAbsolute = false := Bool.eq_false_iff.2 habsolute
    have hjoin : p.join q =
        if p.pieces = [] then q
        else if p.pieces.getLast? = some "" then ⟨p.pieces.dropLast ++ q.pieces⟩
        else ⟨p.pieces ++ q.pieces⟩ := by
      rw [join]
      split
      · next hpieces => exact absurd (isAbsolute_iff.2 ⟨_, _, hpieces⟩) habsolute
      · split <;> simp_all
    rw [if_neg habsolute, hjoin]
    obtain ⟨pieces⟩ := p
    rcases List.eq_nil_or_concat pieces with rfl | ⟨init, last, rfl⟩
    · rfl
    · simp only [List.concat_eq_append, List.getLast?_append, List.getLast?_singleton,
        Option.some_or, List.dropLast_concat, Option.some.injEq]
      rw [walk_components hrelative, if_neg (by simp)]
      split
      · -- the text ends in a slash, after which the other one goes on
        next hlast =>
        subst hlast
        cases init with
        | nil => exact walk_components hrelative []
        | cons first rest => rw [resolved, resolved, components_append_slash hq, walk_append]
      · next hlast =>
        have hne : init ++ [last] ≠ [""] := by
          cases init <;> simp_all
        obtain ⟨first, rest, hpieces⟩ := List.exists_cons_of_ne_nil (l := init ++ [last]) (by simp)
        rw [hpieces] at hne ⊢
        rw [resolved, resolved, components_append hne, walk_append]

theorem pieces_ofString_ne_nil (s : String) : (ofString s).pieces ≠ [] := by
  simp [ofString, Text.splitString, List.splitOn_eq_splitOnP, List.splitOnP_ne_nil]

theorem resolved_child (p : Path) (name : String) :
    (p.child name).resolved =
      if (ofString name).isAbsolute then (ofString name).resolved
      else walk p.resolved (ofString name).components :=
  resolved_join p (pieces_ofString_ne_nil name)

/-- A proper name leads one step on. -/
theorem resolved_child_of_isName (p : Path) {name : String} (h : isName name = true) :
    (p.child name).resolved = p.resolved ++ [.name name] := by
  rw [resolved, components_child p h, walk_append]
  rfl

/-! ### Within a directory -/

instance (p dir : Path) : Decidable (p.Within dir) :=
  decidable_of_iff (dir.resolved <+: p.resolved ∧
      ∀ c ∈ p.resolved.drop dir.resolved.length, c.isName) <| by
    constructor
    · rintro ⟨⟨rest, hrest⟩, hnames⟩
      rw [← hrest, List.drop_left] at hnames
      obtain ⟨names, rfl⟩ := exists_names_iff.2 hnames
      exact ⟨names, hrest.symm⟩
    · rintro ⟨names, hnames⟩
      rw [hnames, List.drop_left]
      exact ⟨List.prefix_append .., exists_names_iff.1 ⟨names, rfl⟩⟩

theorem Within.trans {p q dir : Path} (h : p.Within q) (h' : q.Within dir) : p.Within dir := by
  obtain ⟨names, hnames⟩ := h
  obtain ⟨names', hnames'⟩ := h'
  exact ⟨names' ++ names, by rw [hnames, hnames', List.map_append, List.append_assoc]⟩

/-- A proper name leads into every directory. -/
theorem within_child_of_isName (p : Path) {name : String} (h : isName name = true) :
    (p.child name).Within p :=
  ⟨[name], resolved_child_of_isName p h⟩

/-- Whether a text leads to something within a directory depends on where the directory is. -/
theorem within_child_congr {dir dir' : Path} (h : dir.resolved = dir'.resolved) (name : String) :
    (dir.child name).Within dir ↔ (dir'.child name).Within dir' := by
  simp only [Within, resolved_child, h]

/-- A text that leads from the last names of a directory to something within them leads from the
directory to something within it. -/
theorem within_child_of_tail {dir tail : Path} {base : List Component} {names : List String}
    (htail : tail.resolved = names.map .name) (hdir : dir.resolved = base ++ names.map .name)
    {name : String} (h : (tail.child name).Within tail) : (dir.child name).Within dir := by
  obtain ⟨names', hnames'⟩ := h
  rw [htail, ← List.map_append, resolved_child] at hnames'
  by_cases habsolute : (ofString name).isAbsolute = true
  · -- an absolute text leads to no place that is told by names alone
    have hroot := root_mem_resolved habsolute
    rw [if_pos habsolute] at hnames'
    rw [hnames'] at hroot
    simp at hroot
  · have hrelative := Bool.eq_false_iff.2 habsolute
    rw [if_neg habsolute, htail, walk_components hrelative] at hnames'
    refine ⟨names', ?_⟩
    rw [resolved_child, if_neg habsolute, hdir, walk_components hrelative,
      walk_base_append (root_not_mem_pieces _) hnames', List.map_append, List.append_assoc]

end Path

end Grove
