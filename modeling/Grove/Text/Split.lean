import Grove.Text.Blank

/-!
# Cutting text

Cutting a text at a separator, at a pattern and at line ends, over lists of characters.
Main statements: a cut loses nothing but the pattern (`append_of_cut`), and what is joined is found
again (`splitOn_lines`, `splitString_intercalate`).
-/

namespace Grove.Text

/-- What follows `pattern` when the text starts with it. -/
def dropStart? : List Char → List Char → Option (List Char)
  | [], cs => some cs
  | _ :: _, [] => none
  | p :: ps, c :: cs => if p = c then dropStart? ps cs else none

/-- The text before and after the first occurrence of `pattern`. -/
def cut (pattern : List Char) : List Char → Option (List Char × List Char)
  | [] => if pattern = [] then some ([], []) else none
  | c :: cs =>
    match dropStart? pattern (c :: cs) with
    | some rest => some ([], rest)
    | none => (cut pattern cs).map fun (before, after) => (c :: before, after)

/-- The text before and after the last occurrence of the character. -/
def cutLast (sep : Char) (cs : List Char) : Option (List Char × List Char) :=
  let tail := cs.reverse.takeWhile (· != sep)
  match cs.reverse.dropWhile (· != sep) with
  | [] => none
  | _ :: before => some (before.reverse, tail.reverse)

/-- Removes a carriage return that ends the line. -/
def dropReturn (line : List Char) : List Char :=
  match line.reverse with
  | '\r' :: rest => rest.reverse
  | _ => line

/-- The lines of a text: each ends at a line feed, which may follow a carriage return, and the last
may lack it. -/
def lines (cs : List Char) : List (List Char) :=
  let pieces := cs.splitOn '\n'
  let ended := pieces.dropLast.map dropReturn
  match pieces.getLast? with
  | none => ended
  | some [] => ended
  | some last => ended ++ [dropReturn last]

/-- The pieces of a string between separators. -/
def splitString (sep : Char) (s : String) : List String :=
  (s.toList.splitOn sep).map String.ofList

/-- The stripped, non-empty entries of a comma-separated text, in order. -/
def entries (s : String) : List String :=
  (((s.toList.splitOn ',').map strip).filter (fun e => !e.isEmpty)).map String.ofList

/-- Whether the text holds the pattern. -/
def holds (pattern cs : List Char) : Bool :=
  (cut pattern cs).isSome

theorem append_of_dropStart {pattern cs rest : List Char} (h : dropStart? pattern cs = some rest) :
    cs = pattern ++ rest := by
  induction pattern generalizing cs with
  | nil => simp_all [dropStart?]
  | cons p ps ih =>
    cases cs with
    | nil => simp [dropStart?] at h
    | cons c cs =>
      simp only [dropStart?] at h
      split at h
      · next hpc => rw [hpc, ih h, List.cons_append]
      · exact absurd h (by simp)

@[simp] theorem dropStart?_append (pattern rest : List Char) :
    dropStart? pattern (pattern ++ rest) = some rest := by
  induction pattern with
  | nil => rfl
  | cons p ps ih => simp [dropStart?, ih]

/-- A cut loses the pattern and nothing else. -/
theorem append_of_cut {pattern cs before after : List Char}
    (h : cut pattern cs = some (before, after)) : cs = before ++ pattern ++ after := by
  induction cs generalizing before with
  | nil =>
    simp only [cut] at h
    split at h <;> simp_all
  | cons c cs ih =>
    simp only [cut] at h
    split at h
    · next rest hrest =>
      obtain ⟨rfl, rfl⟩ := by simpa using h
      simpa using append_of_dropStart hrest
    · obtain ⟨⟨b, a⟩, hb, heq⟩ := Option.map_eq_some_iff.1 h
      obtain ⟨rfl, rfl⟩ := by simpa using heq
      simp [ih hb]

/-- What remains after a cut is no longer than the text. -/
theorem length_after_cut {pattern cs before after : List Char}
    (h : cut pattern cs = some (before, after)) : after.length ≤ cs.length := by
  have := congrArg List.length (append_of_cut h)
  simp only [List.length_append] at this
  omega

theorem cut_append_self {pattern : List Char} (h : pattern ≠ []) (cs : List Char) :
    cut pattern (pattern ++ cs) = some ([], cs) := by
  obtain ⟨p, ps, rfl⟩ := List.exists_cons_of_ne_nil h
  have hdrop := dropStart?_append (p :: ps) cs
  rw [List.cons_append] at hdrop ⊢
  rw [cut, hdrop]

/-- A pattern is looked for behind a text without its first character. -/
theorem cut_of_notMem {c : Char} {p body : List Char} (hbody : c ∉ body) (cs : List Char) :
    cut (c :: p) (body ++ cs) =
      (cut (c :: p) cs).map fun (before, after) => (body ++ before, after) := by
  induction body with
  | nil => simp
  | cons b body ih =>
    rw [List.mem_cons, not_or] at hbody
    obtain ⟨hb, hbody⟩ := hbody
    rw [List.cons_append, cut, dropStart?, if_neg hb, ih hbody]
    simp [Function.comp_def]

section

variable {α : Type} [BEq α] [LawfulBEq α] {sep : α}

/-- The pieces of a row of texts that are each ended are the pieces of each, and of what stands behind
them. -/
theorem splitOn_flatMap (ls : List (List α)) (rest : List α) :
    (ls.flatMap (· ++ [sep]) ++ rest).splitOn sep =
      ls.flatMap (·.splitOn sep) ++ rest.splitOn sep := by
  induction ls with
  | nil => rfl
  | cons l ls ih =>
    rw [List.flatMap_cons, List.append_assoc, List.append_assoc, List.singleton_append,
      List.splitOn_append_cons_self, ih, List.flatMap_cons, List.append_assoc]

theorem flatMap_splitOn {ls : List (List α)} (h : ∀ l ∈ ls, sep ∉ l) :
    ls.flatMap (·.splitOn sep) = ls := by
  have hpieces : ls.map (·.splitOn sep) = ls.map ([·]) :=
    List.map_congr_left fun l hl => List.splitOn_eq_singleton (h l hl)
  rw [List.flatMap_def, hpieces, ← List.flatMap_def, List.flatMap_singleton']

end

/-- The pieces of a text in which every line is ended are its lines and nothing more. -/
theorem splitOn_lines {ls : List (List Char)} (h : ∀ l ∈ ls, '\n' ∉ l) :
    (ls.flatMap (· ++ ['\n'])).splitOn '\n' = ls ++ [[]] := by
  rw [← List.append_nil (ls.flatMap _), splitOn_flatMap, flatMap_splitOn h, List.splitOn_nil]

/-- Joined texts are found between the separators. -/
theorem splitString_intercalate {sep : Char} {ts : List String} (hne : ts ≠ [])
    (hts : ∀ t ∈ ts, sep ∉ t.toList) :
    splitString sep ((String.singleton sep).intercalate ts) = ts := by
  have hsplit : ([sep].intercalate (ts.map String.toList)).splitOn sep = ts.map String.toList := by
    refine List.splitOn_intercalate sep ?_ (by simpa using hne)
    simpa using hts
  rw [splitString, String.toList_intercalate, String.toList_singleton, hsplit, List.map_map]
  simp

end Grove.Text
