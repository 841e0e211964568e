import Grove.Text.Name
import Grove.Text.Split

/-!
# Paths

A path is kept as it was written, as the pieces of text between its slashes. What it means is its
list of components: empty pieces and pieces `.` are skipped, except that an empty first piece with
more behind it is the root and a first piece `.` is the current directory. Two paths are alike when
their components agree; they are ordered component by component.

A name need not be a text to the system: a name of other bytes is held as `Grove.Text.ofNameBytes` has
it, and paths are ordered by the bytes of their names. Where a path is told in a text, it is what is
shown of it that is told: in charts and listings, in messages, in the names of checkouts and in the
arguments of programs. Globs are matched with it, too. Elsewhere names count as they are held, which is
the same where they are only joined, compared and looked up. Ignore files, the records of git and the
utilities of a shell are meant for names that are texts.

Main statements: leaving the last component (`components_parent?`), what follows a start
(`components_stripStart?`), the ancestors of a path end because each has fewer components
(`ancestors`), two paths compare as equal exactly when their components agree (`order_eq_eq_iff`),
and the comparison is an order.
-/

namespace Grove

/-- One step of a path. -/
inductive Component where
  /-- The top directory. -/
  | root
  /-- The directory the path starts from, written `.`. -/
  | here
  /-- The enclosing directory, written `..`. -/
  | up
  /-- An entry of the directory reached so far. -/
  | name (text : String)
  deriving DecidableEq, Inhabited

namespace Component

/-- Components are ordered as root, current directory, enclosing directory, then names. -/
def rank : Component → Nat × String
  | root => (0, "")
  | here => (1, "")
  | up => (2, "")
  | name s => (3, s)

theorem rank_injective {a b : Component} (h : a.rank = b.rank) : a = b := by
  cases a <;> cases b <;> simp_all [rank]

/-- The bytes that a component is ordered by among those of its rank. -/
def rankBytes (c : Component) : List UInt8 :=
  Text.nameBytes c.rank.2.toList

/-- The order of components: names by their bytes, and by how they are held where these are the
same. -/
def order (a b : Component) : Ordering :=
  (compare a.rank.1 b.rank.1).then
    ((compare a.rankBytes b.rankBytes).then (compare a.rank.2 b.rank.2))

theorem order_eq_eq_iff {a b : Component} : a.order b = .eq ↔ a = b := by
  constructor
  · intro h
    rw [order, Ordering.then_eq_eq, Ordering.then_eq_eq] at h
    exact rank_injective (Prod.ext (Std.LawfulEqOrd.eq_of_compare h.1)
      (Std.LawfulEqOrd.eq_of_compare h.2.2))
  · rintro rfl
    simp [order, Std.ReflOrd.compare_self]

instance : Std.TransCmp order :=
  inferInstanceAs (Std.TransCmp
    (compareLex (compareOn fun c : Component => c.rank.1)
      (compareLex (compareOn rankBytes) (compareOn fun c => c.rank.2))))

/-- The text of a component. -/
def text : Component → String
  | root => "/"
  | here => "."
  | up => ".."
  | name s => s

/-- The component a piece of text stands for, if any. -/
def ofPiece? (piece : String) : Option Component :=
  if piece = "" ∨ piece = "." then none
  else if piece = ".." then some up
  else some (name piece)

end Component

/-- A path as written. -/
structure Path where
  /-- The text between the slashes. -/
  pieces : List String
  deriving DecidableEq, Inhabited

namespace Path

/-- Reads a path; every text is one. -/
def ofString (s : String) : Path :=
  ⟨Text.splitString '/' s⟩

/-- The path as written. -/
def text (p : Path) : String :=
  "/".intercalate p.pieces

/-- What is shown of a path. -/
def shown (p : Path) : String :=
  Text.shown p.text

instance : Coe String Path := ⟨ofString⟩

/-- Whether a piece adds nothing to a path. -/
def isNoise (piece : String) : Bool :=
  piece = "" || piece = "."

/-- The component of the first piece. -/
def leading? (first : String) (rest : List String) : Option Component :=
  if first = "" then (if rest = [] then none else some .root)
  else if first = "." then some .here
  else Component.ofPiece? first

/-- The steps of a path. -/
def components (p : Path) : List Component :=
  match p.pieces with
  | [] => []
  | first :: rest => (leading? first rest).toList ++ rest.filterMap Component.ofPiece?

/-- Whether the path starts at the top directory. -/
def isAbsolute (p : Path) : Bool :=
  p.components.head? = some .root

/-- Whether two paths have the same steps. -/
def alike (p q : Path) : Bool :=
  p.components = q.components

/-- The order of paths, component by component. -/
def order (p q : Path) : Ordering :=
  List.compareLex Component.order p.components q.components

/-- Whether `p` comes before `q` or is like it. -/
def le (p q : Path) : Bool :=
  (p.order q).isLE

/-- The number of steps. -/
def depth (p : Path) : Nat :=
  p.components.length

/-- Drops the pieces at the end that add nothing. -/
def dropNoise (pieces : List String) : List String :=
  (pieces.reverse.dropWhile isNoise).reverse

/-- The path without its last component; none for the top directory and the empty path. -/
def parent? (p : Path) : Option Path :=
  match p.pieces with
  | [] => none
  | first :: rest =>
    match dropNoise rest with
    | [] => if first = "" then none else some ⟨[""]⟩
    | kept =>
      let body := dropNoise kept.dropLast
      if first = "" ∧ body = [] then some ⟨["", ""]⟩ else some ⟨first :: body⟩

/-- The last component, when it is a name. -/
def fileName? (p : Path) : Option String :=
  match p.components.getLast? with
  | some (.name s) => some s
  | _ => none

/-- `p` followed by `q`; an absolute `q` stands alone. The text of both is kept. -/
def join (p q : Path) : Path :=
  match q.pieces with
  | "" :: _ :: _ => q
  | _ =>
    match p.pieces.getLast? with
    | none => q
    | some "" => ⟨p.pieces.dropLast ++ q.pieces⟩
    | some _ => ⟨p.pieces ++ q.pieces⟩

/-- An entry of the directory `p`. -/
def child (p : Path) (name : String) : Path :=
  p.join (ofString name)

/-- The pieces that remain after `n` components. -/
def dropComponents : Nat → List String → List String
  | 0, pieces => pieces.dropWhile isNoise
  | n + 1, pieces => dropComponents n (pieces.dropWhile isNoise).tail

/-- What follows `base` in `p`, when the components of `base` start those of `p`. -/
def stripStart? (p base : Path) : Option Path :=
  if base.components.isPrefixOf p.components then
    match p.pieces with
    | [] => some ⟨[""]⟩
    | first :: rest =>
      match base.components.length with
      | 0 =>
        let body := dropNoise rest
        some (if first = "" ∧ body = [] ∧ rest ≠ [] then ⟨["", ""]⟩ else ⟨first :: body⟩)
      | n + 1 =>
        match dropNoise (dropComponents n rest) with
        | [] => some ⟨[""]⟩
        | body => some ⟨body⟩
  else none

/-! ### The components of the enclosing path -/

private theorem ofPiece?_eq_none_iff {piece : String} :
    Component.ofPiece? piece = none ↔ isNoise piece = true := by
  simp only [Component.ofPiece?, isNoise, Bool.or_eq_true, decide_eq_true_eq]
  split <;> simp_all
  split <;> simp

private theorem filterMap_dropWhile (pieces : List String) :
    (pieces.dropWhile isNoise).filterMap Component.ofPiece? =
      pieces.filterMap Component.ofPiece? := by
  induction pieces with
  | nil => rfl
  | cons p ps ih =>
    by_cases h : isNoise p = true
    · simp [h, ih, ofPiece?_eq_none_iff.2 h]
    · simp [h]

/-- Pieces that add nothing hold no component. -/
@[simp] theorem filterMap_dropNoise (pieces : List String) :
    (dropNoise pieces).filterMap Component.ofPiece? = pieces.filterMap Component.ofPiece? := by
  rw [dropNoise, List.filterMap_reverse, filterMap_dropWhile, List.filterMap_reverse,
    List.reverse_reverse]

private theorem isNoise_getLast_dropNoise {pieces : List String} (h : dropNoise pieces ≠ []) :
    isNoise ((dropNoise pieces).getLast h) = false := by
  have hne : pieces.reverse.dropWhile isNoise ≠ [] := by
    intro h'
    simp [dropNoise, h'] at h
  have := List.head_dropWhile_not isNoise hne
  simpa [dropNoise, List.getLast_reverse] using this

/-- After dropping the end that adds nothing, the last piece is the last component. -/
theorem filterMap_dropNoise_dropLast {pieces : List String} :
    (dropNoise pieces).dropLast.filterMap Component.ofPiece? =
      (pieces.filterMap Component.ofPiece?).dropLast := by
  rw [← filterMap_dropNoise pieces]
  by_cases h : dropNoise pieces = []
  · simp [h]
  · have hlast := isNoise_getLast_dropNoise h
    have hsome : ∃ c, Component.ofPiece? ((dropNoise pieces).getLast h) = some c := by
      cases hc : Component.ofPiece? ((dropNoise pieces).getLast h) with
      | none => rw [ofPiece?_eq_none_iff.1 hc] at hlast; exact absurd hlast (by simp)
      | some c => exact ⟨c, rfl⟩
    obtain ⟨c, hc⟩ := hsome
    conv => rhs; rw [← List.dropLast_concat_getLast h]
    simp [List.filterMap_append, hc]

private theorem components_mk (first : String) (rest : List String) :
    components ⟨first :: rest⟩ = (leading? first rest).toList ++ rest.filterMap Component.ofPiece? :=
  rfl

/-- The parent of a path has all its components but the last. -/
theorem components_parent? {p q : Path} (h : p.parent? = some q) :
    q.components = p.components.dropLast := by
  obtain ⟨pieces⟩ := p
  cases pieces with
  | nil => simp [parent?] at h
  | cons first rest =>
    simp only [parent?] at h
    split at h
    · next hkept =>
      split at h
      · exact absurd h (by simp)
      · next hfirst =>
        obtain rfl := by simpa using h
        have hrest : rest.filterMap Component.ofPiece? = [] := by
          rw [← filterMap_dropNoise, hkept]; rfl
        have hempty : components ⟨[""]⟩ = [] := by simp [components, leading?]
        rw [hempty, components_mk, hrest, List.append_nil]
        cases leading? first rest <;> rfl
    · next kept hne =>
      have hbody : (dropNoise (dropNoise rest).dropLast).filterMap Component.ofPiece? =
          (rest.filterMap Component.ofPiece?).dropLast := by
        rw [filterMap_dropNoise, filterMap_dropNoise_dropLast]
      have hrest : rest ≠ [] := by rintro rfl; exact hne rfl
      have hcomps : rest.filterMap Component.ofPiece? ≠ [] := by
        rw [← filterMap_dropNoise]
        intro hnil
        have hl := @isNoise_getLast_dropNoise rest hne
        have hmem := List.getLast_mem hne
        have := List.filterMap_eq_nil_iff.1 hnil _ hmem
        rw [ofPiece?_eq_none_iff.1 this] at hl
        exact absurd hl (by simp)
      have hlead : ∀ body : List String, ¬(first = "" ∧ body = []) →
          leading? first body = leading? first rest := by
        intro body hb
        simp only [leading?, hrest, if_false]
        by_cases hf : first = ""
        · simp [hf] at hb ⊢; exact hb
        · simp [hf]
      split at h
      · next hroot =>
        obtain rfl := by simpa using h
        have hempty : (rest.filterMap Component.ofPiece?).dropLast = [] := by
          rw [← hbody, hroot.2]; rfl
        rw [components_mk, components_mk, List.dropLast_append_of_ne_nil hcomps, hempty]
        simp [leading?, hroot.1, hrest, Component.ofPiece?]
      · next hroot =>
        obtain rfl := by simpa using h
        rw [components_mk, components_mk, List.dropLast_append_of_ne_nil hcomps, hbody,
          hlead _ hroot]

/-- A path with a parent has a component. -/
theorem components_ne_nil_of_parent? {p q : Path} (h : p.parent? = some q) : p.components ≠ [] := by
  obtain ⟨pieces⟩ := p
  cases pieces with
  | nil => simp [parent?] at h
  | cons first rest =>
    simp only [parent?] at h
    split at h
    · split at h
      · exact absurd h (by simp)
      · next hfirst =>
        simp only [components_mk, leading?, hfirst, if_false]
        split
        · simp
        · next hdot =>
          simp only [Component.ofPiece?, hfirst, hdot, or_self, if_false]
          split <;> simp
    · next kept hne =>
      have hl := @isNoise_getLast_dropNoise rest hne
      intro hnil
      rw [components_mk, List.append_eq_nil_iff] at hnil
      have hnil2 := hnil.2
      rw [← filterMap_dropNoise] at hnil2
      have := List.filterMap_eq_nil_iff.1 hnil2 _ (List.getLast_mem hne)
      rw [ofPiece?_eq_none_iff.1 this] at hl
      exact absurd hl (by simp)

/-- The parent of a path is shorter. -/
theorem depth_parent? {p q : Path} (h : p.parent? = some q) : q.depth < p.depth := by
  have hne := components_ne_nil_of_parent? h
  have hpos : 0 < p.components.length := List.length_pos_iff.2 hne
  rw [depth, depth, components_parent? h, List.length_dropLast]
  omega

/-- The path itself and every path that encloses it, innermost first. -/
def ancestors (p : Path) : List Path :=
  p :: match _h : p.parent? with
    | none => []
    | some q => q.ancestors
termination_by p.depth
decreasing_by exact depth_parent? (by assumption)

/-! ### What follows a start -/

private theorem filterMap_dropComponents (n : Nat) (pieces : List String) :
    (dropComponents n pieces).filterMap Component.ofPiece? =
      (pieces.filterMap Component.ofPiece?).drop n := by
  induction n generalizing pieces with
  | zero => rw [dropComponents, filterMap_dropWhile, List.drop_zero]
  | succ n ih =>
    rw [dropComponents, ih, ← filterMap_dropWhile pieces]
    cases hkept : pieces.dropWhile isNoise with
    | nil => simp
    | cons first rest =>
      have hfirst : isNoise first = false := by
        have := List.head_dropWhile_not isNoise (l := pieces) (by simp [hkept])
        simpa [hkept] using this
      obtain ⟨c, hc⟩ : ∃ c, Component.ofPiece? first = some c := by
        cases hc : Component.ofPiece? first with
        | none => simp [ofPiece?_eq_none_iff.1 hc] at hfirst
        | some c => exact ⟨c, rfl⟩
      simp [hc]

private theorem head?_dropComponents (n : Nat) {pieces : List String} {first : String}
    (h : (dropComponents n pieces).head? = some first) : isNoise first = false := by
  induction n generalizing pieces with
  | zero =>
    have := List.head?_dropWhile_not isNoise pieces
    rw [dropComponents] at h
    simpa [h] using this
  | succ n ih => exact ih h

private theorem head?_dropNoise {pieces : List String} {first : String}
    (h : (dropNoise pieces).head? = some first) : pieces.head? = some first := by
  have hstart : dropNoise pieces <+: pieces := by
    have := List.reverse_prefix.2 (List.dropWhile_suffix isNoise (l := pieces.reverse))
    rwa [List.reverse_reverse] at this
  obtain ⟨rest, hrest⟩ := hstart
  rw [← hrest, List.head?_append, h]
  rfl

private theorem leading?_dropNoise {first : String} {rest : List String}
    (h : ¬(first = "" ∧ dropNoise rest = [] ∧ rest ≠ [])) :
    leading? first (dropNoise rest) = leading? first rest := by
  by_cases hfirst : first = ""
  · by_cases hbody : dropNoise rest = []
    · by_cases hrest : rest = []
      · rw [hrest]
        rfl
      · exact absurd ⟨hfirst, hbody, hrest⟩ h
    · have hrest : rest ≠ [] := by
        rintro rfl
        exact hbody rfl
      simp [leading?, hfirst, hbody, hrest]
  · simp [leading?, hfirst]

/-- Only the empty text has no first component. -/
private theorem exists_leading? {first : String} {rest : List String}
    (h : components ⟨first :: rest⟩ ≠ []) : ∃ c, leading? first rest = some c := by
  cases hlead : leading? first rest with
  | some c => exact ⟨c, rfl⟩
  | none =>
    refine absurd ?_ h
    simp only [leading?] at hlead
    split at hlead
    · next hfirst =>
      split at hlead
      · next hrest => simp [components, leading?, hfirst, hrest]
      · cases hlead
    · next hfirst =>
      split at hlead
      · cases hlead
      · next hdot =>
        have hnoise := ofPiece?_eq_none_iff.1 hlead
        simp [isNoise, hfirst, hdot] at hnoise

/-- A path is like the one that is left out at its start, followed by what is left. -/
theorem components_stripStart? {p base q : Path} (h : p.stripStart? base = some q) :
    p.components = base.components ++ q.components := by
  obtain ⟨pieces⟩ := p
  have hempty : components ⟨[""]⟩ = [] := by simp [components, leading?]
  rw [stripStart?] at h
  split at h
  · next hstart =>
    rw [List.isPrefixOf_iff_prefix] at hstart
    cases pieces with
    | nil =>
      obtain rfl := Option.some.inj h
      rw [hempty]
      simpa [components] using hstart
    | cons first rest =>
      dsimp only at h
      split at h
      · -- nothing is left out but what adds nothing at the end
        next hnone =>
        rw [List.eq_nil_of_length_eq_zero hnone, List.nil_append]
        have hrest := filterMap_dropNoise rest
        split at h
        · next hroot =>
          obtain rfl := Option.some.inj h
          obtain ⟨rfl, hbody, hne⟩ := hroot
          rw [hbody] at hrest
          simp [components, leading?, hne, ← hrest, Component.ofPiece?]
        · next hroot =>
          obtain rfl := Option.some.inj h
          rw [components_mk, components_mk, hrest, leading?_dropNoise hroot]
      · next n hlength =>
        obtain ⟨left, hleft⟩ := hstart
        have hne : components ⟨first :: rest⟩ ≠ [] := by
          intro hnil
          simp [(List.append_eq_nil_iff.1 (hleft.trans hnil)).1] at hlength
        obtain ⟨c, hc⟩ := exists_leading? hne
        have hbody : (dropNoise (dropComponents n rest)).filterMap Component.ofPiece? = left := by
          have hdrop : (components ⟨first :: rest⟩).drop (n + 1) = left := by
            rw [← hleft, List.drop_left' hlength]
          rw [filterMap_dropNoise, filterMap_dropComponents, ← hdrop, components_mk, hc]
          rfl
        rw [← hleft, List.append_cancel_left_eq, ← hbody]
        split at h
        · next hnone =>
          obtain rfl := Option.some.inj h
          rw [hnone, hempty]
          rfl
        · next hne =>
          obtain rfl := Option.some.inj h
          obtain ⟨piece, body, hpieces⟩ := List.exists_cons_of_ne_nil hne
          have hpiece : isNoise piece = false :=
            head?_dropComponents n (head?_dropNoise (by rw [hpieces]; rfl))
          have hlead : leading? piece body = Component.ofPiece? piece := by
            simp only [isNoise, Bool.or_eq_false_iff, decide_eq_false_iff_not] at hpiece
            simp [leading?, hpiece.1, hpiece.2]
          rw [hpieces, components_mk, hlead, List.filterMap_cons]
          cases Component.ofPiece? piece <;> rfl
  · cases h

/-- Something follows a start where the components agree. -/
theorem exists_stripStart? {p base : Path} (h : base.components <+: p.components) :
    ∃ q, p.stripStart? base = some q := by
  rw [stripStart?, if_pos (List.isPrefixOf_iff_prefix.2 h)]
  split
  · exact ⟨_, rfl⟩
  · split
    · exact ⟨_, rfl⟩
    · split <;> exact ⟨_, rfl⟩

/-! ### Order -/

private theorem compareLex_eq_eq_iff (a b : List Component) :
    List.compareLex Component.order a b = .eq ↔ a = b := by
  induction a generalizing b with
  | nil => cases b <;> simp [List.compareLex]
  | cons x xs ih =>
    cases b with
    | nil => simp [List.compareLex]
    | cons y ys =>
      simp only [List.compareLex]
      rcases h : x.order y with _ | _ | _
      · simp only [reduceCtorEq, List.cons.injEq, false_iff, not_and]
        intro hxy; rw [Component.order_eq_eq_iff.2 hxy] at h; exact absurd h (by simp)
      · simp [ih, Component.order_eq_eq_iff.1 h]
      · simp only [reduceCtorEq, List.cons.injEq, false_iff, not_and]
        intro hxy; rw [Component.order_eq_eq_iff.2 hxy] at h; exact absurd h (by simp)

/-- Paths compare as equal exactly when they are alike. -/
theorem order_eq_eq_iff {p q : Path} : p.order q = .eq ↔ p.components = q.components :=
  compareLex_eq_eq_iff _ _

theorem alike_iff_order {p q : Path} : p.alike q ↔ p.order q = .eq := by
  rw [order_eq_eq_iff, alike, decide_eq_true_iff]

instance : Std.TransCmp order where
  eq_swap := by
    intro p q
    exact @Std.OrientedCmp.eq_swap _ (List.compareLex Component.order) _ _ _
  isLE_trans := by
    intro p q r hpq hqr
    rw [order] at *
    exact Std.TransCmp.isLE_trans hpq hqr

@[simp] theorem alike_self (p : Path) : p.alike p := by
  simp [alike]

theorem alike_comm (p q : Path) : p.alike q = q.alike p := by
  simp [alike, eq_comm]

end Path

end Grove
