/-!
# Ordered sets and maps

Sets and maps as lists in the order of a comparison, one entry for all keys that compare as equal.
Putting a value under a key that is there keeps the key and replaces the value.

Main statements: a look-up after `put` finds the value (`get?_put_self`), other keys keep theirs
(`get?_put_of_ne`, under a comparison that is an order), and a set stays in order without repetition
when an element is added (`increasing_insert`).
-/

namespace Grove.Ordered

variable {α β : Type} (cmp : α → α → Ordering)

/-- The set with `x`; an element that compares as equal stays in its place. -/
def insert (x : α) : List α → List α
  | [] => [x]
  | y :: ys =>
    match cmp x y with
    | .lt => x :: y :: ys
    | .eq => y :: ys
    | .gt => y :: insert x ys

/-- The set of the elements of a list. -/
def ofList (xs : List α) : List α :=
  xs.foldl (fun set x => insert cmp x set) []

/-- The map with `v` under `k`. -/
def put (k : α) (v : β) : List (α × β) → List (α × β)
  | [] => [(k, v)]
  | (k', v') :: rest =>
    match cmp k k' with
    | .lt => (k, v) :: (k', v') :: rest
    | .eq => (k', v) :: rest
    | .gt => (k', v') :: put k v rest

/-- The value under a key. -/
def get? (k : α) : List (α × β) → Option β
  | [] => none
  | (k', v) :: rest => if cmp k k' = .eq then some v else get? k rest

/-- The map without a key. -/
def erase (k : α) (map : List (α × β)) : List (α × β) :=
  map.filter fun e => cmp k e.1 ≠ .eq

/-- A value found after putting it, provided a key compares as equal with itself. -/
theorem get?_put_self [Std.ReflCmp cmp] (k : α) (v : β) (map : List (α × β)) :
    get? cmp k (put cmp k v map) = some v := by
  induction map with
  | nil => simp [put, get?, Std.ReflCmp.compare_self]
  | cons e rest ih =>
    obtain ⟨k', v'⟩ := e
    simp only [put]
    split
    · simp [get?, Std.ReflCmp.compare_self]
    · next h => simp [get?, h]
    · next h => simp [get?, h, ih]

/-- Putting a value leaves the others. -/
theorem get?_put_of_ne [Std.TransCmp cmp] {k j : α} (h : cmp j k ≠ .eq) (v : β)
    (map : List (α × β)) : get? cmp j (put cmp k v map) = get? cmp j map := by
  induction map with
  | nil => simp [put, get?, h]
  | cons e rest ih =>
    obtain ⟨k', v'⟩ := e
    simp only [put]
    split
    · simp [get?, h]
    · next hk =>
      have hj : cmp j k' ≠ .eq := fun hj => h (Std.TransCmp.eq_trans hj (Std.OrientedCmp.eq_symm hk))
      simp [get?, hj]
    · simp only [get?, ih]

/-- A look-up tells keys that compare as equal not apart. -/
theorem get?_congr [Std.TransCmp cmp] {j k : α} (h : cmp j k = .eq) (map : List (α × β)) :
    get? cmp j map = get? cmp k map := by
  induction map with
  | nil => rfl
  | cons e rest ih => simp only [get?, ih, Std.TransCmp.congr_left h]

/-- Without a key, a look-up finds nothing under it and what it found before under the others. -/
theorem get?_erase [Std.TransCmp cmp] (j k : α) (map : List (α × β)) :
    get? cmp j (erase cmp k map) = if cmp j k = .eq then none else get? cmp j map := by
  induction map with
  | nil => simp [erase, get?]
  | cons e rest ih =>
    obtain ⟨k', v⟩ := e
    rw [erase, List.filter_cons, ← erase]
    by_cases hk : cmp k k' = .eq
    · have hj : cmp j k' = .eq ↔ cmp j k = .eq := by rw [Std.TransCmp.congr_right hk]
      by_cases hjk : cmp j k = .eq <;> simp [hk, hj, hjk, ih, get?]
    · have hj : cmp j k = .eq → cmp j k' ≠ .eq := fun hjk => by
        rwa [Std.TransCmp.congr_left hjk]
      by_cases hjk : cmp j k = .eq
      · simp [hk, hjk, hj hjk, ih, get?]
      · simp [hk, hjk, ih, get?]

/-- The set with `x` holds nothing but `x` and what it held before. -/
theorem mem_insert {x y : α} {set : List α} (h : y ∈ insert cmp x set) : y = x ∨ y ∈ set := by
  induction set with
  | nil => simpa [insert] using h
  | cons z zs ih =>
    simp only [insert] at h
    split at h
    · simpa using h
    · exact .inr h
    · rcases List.mem_cons.1 h with rfl | h
      · simp
      · exact (ih h).imp id (List.mem_cons_of_mem _)

theorem mem_insert_of_mem {x y : α} {set : List α} (h : y ∈ set) : y ∈ insert cmp x set := by
  induction set with
  | nil => simp at h
  | cons z zs ih =>
    simp only [insert]
    split
    · exact List.mem_cons_of_mem _ h
    · exact h
    · rcases List.mem_cons.1 h with rfl | h
      · exact List.mem_cons_self
      · exact List.mem_cons_of_mem _ (ih h)

/-- The set with `x` holds something that compares as equal to `x`. -/
theorem exists_mem_insert [Std.ReflCmp cmp] (x : α) (set : List α) :
    ∃ y ∈ insert cmp x set, cmp x y = .eq := by
  induction set with
  | nil => exact ⟨x, by simp [insert], Std.ReflCmp.compare_self⟩
  | cons z zs ih =>
    simp only [insert]
    split
    · exact ⟨x, List.mem_cons_self, Std.ReflCmp.compare_self⟩
    · next h => exact ⟨z, List.mem_cons_self, h⟩
    · obtain ⟨y, hy, hxy⟩ := ih
      exact ⟨y, List.mem_cons_of_mem _ hy, hxy⟩

/-- Where only equal elements compare as equal, adding an element adds just that one. -/
theorem mem_insert_iff [Std.LawfulEqCmp cmp] {x y : α} {set : List α} :
    y ∈ insert cmp x set ↔ y = x ∨ y ∈ set := by
  constructor
  · exact mem_insert cmp
  · rintro (rfl | h)
    · obtain ⟨z, hz, hyz⟩ := exists_mem_insert cmp y set
      obtain rfl := Std.LawfulEqCmp.eq_of_compare hyz
      exact hz
    · exact mem_insert_of_mem cmp h

/-- The set of a list holds nothing but its elements. -/
theorem mem_of_mem_ofList {x : α} {xs : List α} (h : x ∈ ofList cmp xs) : x ∈ xs := by
  have key : ∀ (xs set : List α), x ∈ xs.foldl (fun set x => insert cmp x set) set →
      x ∈ xs ∨ x ∈ set := by
    intro xs
    induction xs with
    | nil => exact fun _ => .inr
    | cons y ys ih =>
      intro set h
      rcases ih _ h with h | h
      · exact .inl (List.mem_cons_of_mem _ h)
      · rcases mem_insert cmp h with rfl | h
        · exact .inl List.mem_cons_self
        · exact .inr h
  simpa using key xs [] h

/-- For each element of a list its set holds something that compares as equal. -/
theorem exists_mem_ofList [Std.ReflCmp cmp] {x : α} {xs : List α} (h : x ∈ xs) :
    ∃ y ∈ ofList cmp xs, cmp x y = .eq := by
  have keep : ∀ (y : α) (xs set : List α), y ∈ set →
      y ∈ xs.foldl (fun set x => insert cmp x set) set := by
    intro y xs
    induction xs with
    | nil => exact fun _ => id
    | cons z zs ih => exact fun set hy => ih _ (mem_insert_of_mem cmp hy)
  obtain ⟨before, after, rfl⟩ := List.append_of_mem h
  obtain ⟨y, hy, hxy⟩ := exists_mem_insert cmp x (ofList cmp before)
  refine ⟨y, ?_, hxy⟩
  rw [ofList, List.foldl_append, List.foldl_cons]
  exact keep y after _ hy

/-- Where only equal elements compare as equal, the set of a list holds its elements. -/
theorem mem_ofList_iff [Std.LawfulEqCmp cmp] {x : α} {xs : List α} :
    x ∈ ofList cmp xs ↔ x ∈ xs := by
  refine ⟨mem_of_mem_ofList cmp, fun h => ?_⟩
  obtain ⟨y, hy, hxy⟩ := exists_mem_ofList cmp h
  obtain rfl := Std.LawfulEqCmp.eq_of_compare hxy
  exact hy

/-! ### Order without repetition -/

/-- Each element comes before all that follow it. -/
def Increasing (xs : List α) : Prop :=
  xs.Pairwise fun a b => cmp a b = .lt

theorem increasing_insert [Std.TransCmp cmp] (x : α) {set : List α} (h : Increasing cmp set) :
    Increasing cmp (insert cmp x set) := by
  induction set with
  | nil => simp [Increasing, insert]
  | cons z zs ih =>
    obtain ⟨hz, hzs⟩ := List.pairwise_cons.1 h
    simp only [insert]
    split
    · next hxz =>
      refine List.pairwise_cons.2 ⟨fun y hy => ?_, h⟩
      rcases List.mem_cons.1 hy with rfl | hy
      · exact hxz
      · exact Std.TransCmp.lt_trans hxz (hz y hy)
    · exact h
    · next hxz =>
      refine List.pairwise_cons.2 ⟨fun y hy => ?_, ih hzs⟩
      rcases mem_insert cmp hy with rfl | hy
      · exact Std.OrientedCmp.lt_of_gt hxz
      · exact hz y hy

theorem increasing_ofList [Std.TransCmp cmp] (xs : List α) : Increasing cmp (ofList cmp xs) := by
  have key : ∀ (xs set : List α), Increasing cmp set →
      Increasing cmp (xs.foldl (fun set x => insert cmp x set) set) := by
    intro xs
    induction xs with
    | nil => exact fun _ => id
    | cons y ys ih => exact fun set h => ih _ (increasing_insert cmp y h)
  exact key xs [] List.Pairwise.nil

theorem Increasing.nodup [Std.TransCmp cmp] {xs : List α} (h : Increasing cmp xs) : xs.Nodup := by
  refine h.imp fun {x y} hlt => ?_
  rintro rfl
  have hself : cmp x x = .eq := Std.ReflCmp.compare_self
  simp [hself] at hlt

/-- In order without repetition, elements that compare as equal are one. -/
theorem Increasing.eq_of_compare [Std.TransCmp cmp] {xs : List α} (h : Increasing cmp xs) {x y : α}
    (hx : x ∈ xs) (hy : y ∈ xs) (hxy : cmp x y = .eq) : x = y := by
  induction xs with
  | nil => simp at hx
  | cons z zs ih =>
    obtain ⟨hz, hzs⟩ := List.pairwise_cons.1 h
    rcases List.mem_cons.1 hx with hxz | hx <;> rcases List.mem_cons.1 hy with hyz | hy
    · rw [hxz, hyz]
    · simp [hxz, hz y hy] at hxy
    · simp [hyz, Std.OrientedCmp.gt_of_lt (hz x hx)] at hxy
    · exact ih hzs hx hy

/-- An element that is there already is not added again. -/
theorem insert_of_mem [Std.TransCmp cmp] {x : α} {set : List α} (h : Increasing cmp set)
    (hx : x ∈ set) : insert cmp x set = set := by
  induction set with
  | nil => simp at hx
  | cons z zs ih =>
    obtain ⟨hz, hzs⟩ := List.pairwise_cons.1 h
    rcases List.mem_cons.1 hx with rfl | hx
    · simp [insert, Std.ReflCmp.compare_self]
    · have hgt := Std.OrientedCmp.gt_of_lt (hz x hx)
      simp only [insert, hgt, ih hzs hx]

/-! ### Maps in order -/

/-- The map with a key has no other keys than that one and those it had before. -/
theorem mem_keys_put {k j : α} {v : β} {map : List (α × β)}
    (h : j ∈ (put cmp k v map).map (·.1)) : j = k ∨ j ∈ map.map (·.1) := by
  induction map with
  | nil => simpa [put] using h
  | cons e rest ih =>
    simp only [put] at h
    split at h
    · simpa using h
    · exact .inr (by simpa using h)
    · rcases List.mem_cons.1 h with rfl | h
      · exact .inr List.mem_cons_self
      · exact (ih h).imp id (List.mem_cons_of_mem _)

theorem increasing_keys_put [Std.TransCmp cmp] (k : α) (v : β) {map : List (α × β)}
    (h : Increasing cmp (map.map (·.1))) : Increasing cmp ((put cmp k v map).map (·.1)) := by
  induction map with
  | nil => simp [Increasing, put]
  | cons e rest ih =>
    obtain ⟨k', v'⟩ := e
    obtain ⟨hfirst, hrest⟩ := List.pairwise_cons.1 h
    simp only [put]
    split
    · next hlt =>
      refine List.pairwise_cons.2 ⟨fun j hj => ?_, h⟩
      rcases List.mem_cons.1 hj with rfl | hj
      · exact hlt
      · exact Std.TransCmp.lt_trans hlt (hfirst j hj)
    · exact h
    · next hgt =>
      refine List.pairwise_cons.2 ⟨fun j hj => ?_, ih hrest⟩
      rcases mem_keys_put cmp hj with rfl | hj
      · exact Std.OrientedCmp.lt_of_gt hgt
      · exact hfirst j hj

/-- What a look-up finds is there under a key that compares as equal. -/
theorem exists_mem_of_get? {k : α} {v : β} {map : List (α × β)} (h : get? cmp k map = some v) :
    ∃ k', cmp k k' = .eq ∧ (k', v) ∈ map := by
  induction map with
  | nil => simp [get?] at h
  | cons e rest ih =>
    obtain ⟨k', v'⟩ := e
    simp only [get?] at h
    split at h
    · next heq =>
      obtain rfl := Option.some.inj h
      exact ⟨k', heq, List.mem_cons_self⟩
    · obtain ⟨k'', heq, hmem⟩ := ih h
      exact ⟨k'', heq, List.mem_cons_of_mem _ hmem⟩

/-- In order without repetition, what is there is found under its key. -/
theorem get?_of_mem [Std.TransCmp cmp] {k : α} {v : β} {map : List (α × β)}
    (hmap : Increasing cmp (map.map (·.1))) (h : (k, v) ∈ map) : get? cmp k map = some v := by
  induction map with
  | nil => simp at h
  | cons e rest ih =>
    obtain ⟨k', v'⟩ := e
    obtain ⟨hfirst, hrest⟩ := List.pairwise_cons.1 hmap
    rcases List.mem_cons.1 h with heq | h
    · obtain ⟨rfl, rfl⟩ := Prod.mk.inj heq
      simp [get?, Std.ReflCmp.compare_self]
    · have hlt : cmp k' k = .lt := hfirst k (List.mem_map_of_mem h)
      simp [get?, Std.OrientedCmp.gt_of_lt hlt, ih hrest h]

/-- A value under a key behind all others is put at the end. -/
theorem put_of_gt {k : α} {v : β} {map : List (α × β)} (h : ∀ e ∈ map, cmp k e.1 = .gt) :
    put cmp k v map = map ++ [(k, v)] := by
  induction map with
  | nil => rfl
  | cons e map ih =>
    obtain ⟨hfirst, hrest⟩ := List.forall_mem_cons.1 h
    simp only [put, hfirst, ih hrest, List.cons_append]

/-- The map with a key has its value and the entries it had before. -/
theorem mem_put {k : α} {v : β} {map : List (α × β)} {e : α × β} (h : e ∈ put cmp k v map) :
    e.2 = v ∨ e ∈ map := by
  induction map with
  | nil =>
    rw [put, List.mem_singleton] at h
    exact .inl (by rw [h])
  | cons d rest ih =>
    simp only [put] at h
    split at h
    · rcases List.mem_cons.1 h with rfl | h
      · exact .inl rfl
      · exact .inr h
    · rcases List.mem_cons.1 h with rfl | h
      · exact .inl rfl
      · exact .inr (List.mem_cons_of_mem _ h)
    · rcases List.mem_cons.1 h with rfl | h
      · exact .inr List.mem_cons_self
      · exact (ih h).imp_right (List.mem_cons_of_mem _)

/-- Nothing is found under a key before all others. -/
theorem get?_of_lt {k : α} {map : List (α × β)} (h : ∀ e ∈ map, cmp k e.1 = .lt) :
    get? cmp k map = none := by
  induction map with
  | nil => rfl
  | cons e map ih =>
    obtain ⟨hfirst, hrest⟩ := List.forall_mem_cons.1 h
    simp [get?, hfirst, ih hrest]

/-- Lists that start alike are ordered by what follows. -/
theorem compareLex_append_left [Std.ReflCmp cmp] (start xs ys : List α) :
    List.compareLex cmp (start ++ xs) (start ++ ys) = List.compareLex cmp xs ys := by
  induction start with
  | nil => rfl
  | cons x start ih =>
    have hself : cmp x x = .eq := Std.ReflCmp.compare_self
    rw [List.cons_append, List.cons_append, List.compareLex_cons_cons, hself, ih]
    rfl

end Grove.Ordered
