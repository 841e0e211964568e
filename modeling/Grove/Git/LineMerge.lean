/-!
# Merging texts

Two versions of a text are merged line by line against the text they both come from. Each version is
a list of changes to the common text. Changes that lie apart are all taken; where changes of both
versions meet, they are taken if they are the same, and otherwise both versions are kept side by side
between marks.

Main statement: a text whose two versions are both itself is merged to itself (`merge_self`).
-/

namespace Grove.LineMerge

/-- A line of bytes with its line feed. -/
abbrev Line := List UInt8

/-- The lines of some bytes; only the last may lack its line feed. -/
def lines : List UInt8 → List Line
  | [] => []
  | b :: rest =>
    if b = 10 then [b] :: lines rest
    else
      match lines rest with
      | [] => [[b]]
      | line :: more => (b :: line) :: more

/-- The lines of some bytes make up the bytes. -/
theorem flatten_lines (bs : List UInt8) : (lines bs).flatten = bs := by
  induction bs with
  | nil => rfl
  | cons b rest ih =>
    by_cases h : b = 10
    · simp [lines, h, ih]
    · simp only [lines, h, if_false]
      split
      · next hn => simp [hn] at ih; simp [← ih]
      · next line more hm => simp [hm] at ih; simp [← ih]

/-! ### Differences -/

/-- What happens to a line on the way to another version. -/
inductive Edit where
  /-- The line stays. -/
  | keep
  /-- The line goes. -/
  | remove
  /-- Another line comes before it. -/
  | add (line : Line)
  deriving DecidableEq

/-- The lengths of the longest common subsequences of a list that starts with `x` and every end of
`ys`, given those of the list without `x`. -/
def commonRow (x : Line) : List Line → List Nat → List Nat
  | y :: ys, below :: rest =>
    let right := commonRow x ys rest
    (if x = y then rest.headD 0 + 1 else max below (right.headD 0)) :: right
  | _, _ => [0]

/-- The rows for every end of `xs`. -/
def commonRows (xs ys : List Line) : List (List Nat) :=
  xs.foldr (fun x rows => commonRow x ys (rows.headD []) :: rows) [List.replicate (ys.length + 1) 0]

/-- The edits that lead from `xs` to `ys` and keep as many lines as can be kept. -/
def edits (xs ys : List Line) (rows : List (List Nat)) : List Edit :=
  match xs, ys with
  | [], ys => ys.map .add
  | xs, [] => xs.map fun _ => .remove
  | x :: xs, y :: ys =>
    if x = y then .keep :: edits xs ys (rows.tail.map List.tail)
    else
      let withoutX := (rows.tail.headD []).headD 0
      let withoutY := (rows.headD []).tail.headD 0
      if withoutX < withoutY then .add y :: edits (x :: xs) ys (rows.map List.tail)
      else .remove :: edits xs (y :: ys) rows.tail
termination_by xs.length + ys.length

/-- A change of a text: from line `start` on, `removed` lines give way to others. -/
structure Change where
  /-- The line before which it starts. -/
  start : Nat
  /-- How many lines it takes away. -/
  removed : Nat
  /-- The lines it puts in their place. -/
  added : List Line
  deriving DecidableEq

namespace Change

/-- The line after the last one that the change takes away. -/
def stop (c : Change) : Nat :=
  c.start + c.removed

/-- Puts a change before others, as one with the first if they touch. -/
def join (c : Change) : List Change → List Change
  | [] => [c]
  | d :: rest =>
    if d.start = c.stop then ⟨c.start, c.removed + d.removed, c.added ++ d.added⟩ :: rest
    else c :: d :: rest

end Change

/-- The changes that edits make from a line on. -/
def changesFrom (line : Nat) : List Edit → List Change
  | [] => []
  | .keep :: rest => changesFrom (line + 1) rest
  | .remove :: rest => Change.join ⟨line, 1, []⟩ (changesFrom (line + 1) rest)
  | .add new :: rest => Change.join ⟨line, 0, [new]⟩ (changesFrom line rest)

/-- The changes that lead from one text to another. -/
def changes (old new : List Line) : List Change :=
  changesFrom 0 (edits old new (commonRows old new))

/-! ### Merging -/

/-- A stretch of the common text with the changes that the two versions make to it. -/
structure Region where
  /-- The first line. -/
  start : Nat
  /-- The line after the last. -/
  stop : Nat
  /-- The changes of the first version. -/
  ours : List Change
  /-- The changes of the second version. -/
  theirs : List Change

/-- The stretches of the common text where changes lie, from changes in order, each with whether it
is of the first version. Changes that touch share a stretch. -/
def regions : List (Bool × Change) → List Region
  | [] => []
  | (isOurs, c) :: rest =>
    let own : List Change × List Change := if isOurs then ([c], []) else ([], [c])
    match regions rest with
    | [] => [⟨c.start, c.stop, own.1, own.2⟩]
    | r :: more =>
      if r.start ≤ c.stop then
        ⟨c.start, max c.stop r.stop, own.1 ++ r.ours, own.2 ++ r.theirs⟩ :: more
      else ⟨c.start, c.stop, own.1, own.2⟩ :: r :: more

/-- The lines of a stretch under changes; `at_` is the line reached. -/
def applied (base : List Line) (at_ stop : Nat) : List Change → List Line
  | [] => (base.take stop).drop at_
  | c :: rest => (base.take c.start).drop at_ ++ c.added ++ applied base c.stop stop rest

/-- A part of a merged text. -/
inductive Part where
  /-- Lines that both versions share. -/
  | common (ls : List Line)
  /-- Lines that one version changed. -/
  | taken (ls : List Line)
  /-- Lines that the versions disagree on. -/
  | conflict (ours theirs : List Line)
  deriving DecidableEq

/-- Splits a disagreement at the lines that both versions share. -/
def split (ours theirs : List Line) : List Part :=
  go 0 (changes ours theirs)
where
  /-- The parts from a line of the first version on. -/
  go (line : Nat) : List Change → List Part
    | [] => [.common (ours.drop line)]
    | c :: rest =>
      .common ((ours.take c.start).drop line) :: .conflict ((ours.take c.stop).drop c.start) c.added ::
        go c.stop rest

/-- The parts of a stretch. -/
def settle (base : List Line) (r : Region) : List Part :=
  let ours := applied base r.start r.stop r.ours
  let theirs := applied base r.start r.stop r.theirs
  if r.theirs = [] then [.taken ours]
  else if r.ours = [] then [.taken theirs]
  else if ours = theirs then [.taken ours]
  else split ours theirs

/-- The parts of the whole text from a line on. -/
def parts (base : List Line) (line : Nat) : List Region → List Part
  | [] => [.common (base.drop line)]
  | r :: rest => .common ((base.take r.start).drop line) :: settle base r ++ parts base r.stop rest

/-- How many shared lines two disagreements may have between them and still be shown as one. -/
def nearness : Nat := 3

/-- Joins disagreements that are near each other. -/
def joinNear : List Part → List Part
  | [] => []
  | .conflict a b :: rest =>
    match joinNear rest with
    | .conflict c d :: more => .conflict (a ++ c) (b ++ d) :: more
    | .common m :: .conflict c d :: more =>
      if m.length ≤ nearness then .conflict (a ++ m ++ c) (b ++ m ++ d) :: more
      else .conflict a b :: .common m :: .conflict c d :: more
    | more => .conflict a b :: more
  | .common [] :: rest => joinNear rest
  | p :: rest => p :: joinNear rest

/-- A merged text. -/
structure Merged where
  /-- Its bytes. -/
  content : List UInt8
  /-- Whether the versions disagree somewhere. -/
  disagree : Bool
  deriving DecidableEq

/-- Lines of which the last ends in a line feed. -/
def ended (ls : List Line) : List UInt8 :=
  let bytes := ls.flatten
  if bytes = [] ∨ bytes.getLast? = some 10 then bytes else bytes ++ [10]

/-- A part as bytes, with the names of the versions in the marks. -/
def Part.bytes (ourName theirName : String) : Part → List UInt8
  | common ls => ls.flatten
  | taken ls => ls.flatten
  | conflict a b =>
    ("<<<<<<< " ++ ourName ++ "\n").toUTF8.data.toList ++ ended a ++
      "=======\n".toUTF8.data.toList ++ ended b ++
      (">>>>>>> " ++ theirName ++ "\n").toUTF8.data.toList

/-- Whether the part is a disagreement. -/
def Part.isConflict : Part → Bool
  | conflict .. => true
  | _ => false

/-- The parts that the merge of two versions consists of. -/
def merged (base ours theirs : List Line) : List Part :=
  let all := (changes base ours).map (true, ·) ++ (changes base theirs).map (false, ·)
  joinNear (parts base 0 (regions (all.mergeSort fun a b => a.2.start ≤ b.2.start)))

/-- Merges two versions of some bytes. -/
def merge (base ours theirs : List UInt8) (ourName theirName : String) : Merged :=
  let ps := merged (lines base) (lines ours) (lines theirs)
  ⟨ps.flatMap (Part.bytes ourName theirName), ps.any Part.isConflict⟩

/-- A text differs from itself nowhere. -/
theorem changes_self (ls : List Line) : changes ls ls = [] := by
  have h : ∀ (xs : List Line) (rows) (n : Nat), changesFrom n (edits xs xs rows) = [] := by
    intro xs
    induction xs with
    | nil => intro rows n; simp [edits, changesFrom]
    | cons x xs ih => intro rows n; rw [edits]; simp [changesFrom, ih]
  exact h ls _ 0

/-- Of a text whose two versions are both itself everything is shared. -/
theorem merged_self (ls : List Line) :
    merged ls ls ls = if ls = [] then [] else [.common ls] := by
  cases ls <;> simp [merged, changes_self, regions, parts, joinNear]

/-- A text whose two versions are both itself is merged to itself. -/
theorem merge_self (bs : List UInt8) (a b : String) : merge bs bs bs a b = ⟨bs, false⟩ := by
  have hf := flatten_lines bs
  by_cases h : lines bs = []
  · have hb : bs = [] := by rw [h] at hf; exact hf.symm
    simp [merge, merged_self, lines, hb]
  · simp [merge, merged_self, h, Part.bytes, Part.isConflict, hf]

end Grove.LineMerge
