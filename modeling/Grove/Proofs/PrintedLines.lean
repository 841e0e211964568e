import Mathlib.Data.List.TakeWhile
import Grove.Program.Launch
import Grove.Proofs.Action
import Grove.Proofs.Canonical
import Grove.Proofs.Encoding

/-!
# Lines that programs print

What a program prints as text is a row of lines, each with its ending, and what stands behind the last
ending. The lines are read from the bytes as they were, for the bytes of line endings do not occur in
those of other characters.

What is kept of the lines is put together line by line, with a line feed wherever there is text before.
So an empty line leaves a line feed, but not before the first line that is not empty: the empty lines
that come first are lost, and all others are kept.

## What is proved

* `Text.feed_notMem_textBytes`, `Text.getLast?_of_textBytes` — the bytes of line endings in a text.
* `Text.byteLines_ended`, `Text.textLines_map` — lines read from bytes.
* `Printout.textLines_bytes` — the lines of what is printed are read as they were.
* `Outcome.keepLines_eq` — what is kept of lines.
* `Host.printed_lines_kept` — what comes of a program that prints lines.
* `Host.blank_line_lost` — an empty line that is printed first.
-/

namespace Grove

namespace Text

/-! ### Line endings among bytes -/

theorem utf8EncodeChar_ne_nil (c : Char) : String.utf8EncodeChar c ≠ [] := by
  refine List.ne_nil_of_length_pos ?_
  rw [String.length_utf8EncodeChar]
  exact c.utf8Size_pos

theorem textBytes_eq (s : String) :
    Shell.textBytes s = s.toList.flatMap String.utf8EncodeChar := by
  rw [Shell.textBytes, toList_toUTF8]

theorem textBytes_eq_nil_iff {s : String} : Shell.textBytes s = [] ↔ s = "" := by
  rw [textBytes_eq, List.flatMap_eq_nil_iff, ← String.toList_eq_nil_iff]
  exact ⟨fun h => List.eq_nil_iff_forall_not_mem.2 fun c hc => utf8EncodeChar_ne_nil c (h c hc),
    fun h c hc => by simp [h] at hc⟩

/-- There is no line feed among the bytes of a text on one line. -/
theorem feed_notMem_textBytes {s : String} (h : '\n' ∉ s.toList) : 10 ∉ Shell.textBytes s := by
  rw [textBytes_eq]
  intro hmem
  obtain ⟨c, hc, hbyte⟩ := List.mem_flatMap.1 hmem
  rw [eq_ofNat_of_mem_utf8EncodeChar hbyte (by decide)] at hc
  exact h hc

/-- A text whose bytes end with a carriage return ends with one. -/
theorem getLast?_of_textBytes {s : String} (h : (Shell.textBytes s).getLast? = some 13) :
    s.toList.getLast? = some '\r' := by
  rw [textBytes_eq] at h
  cases hlast : s.toList.getLast? with
  | none => simp [List.getLast?_eq_none_iff.1 hlast] at h
  | some c =>
    obtain ⟨front, hfront⟩ := List.getLast?_eq_some_iff.1 hlast
    rw [hfront, List.flatMap_append, List.flatMap_singleton, List.getLast?_append] at h
    have hb := List.getLast?_eq_some_getLast (utf8EncodeChar_ne_nil c)
    rw [hb, Option.some_or, Option.some_inj] at h
    rw [h] at hb
    rw [eq_ofNat_of_mem_utf8EncodeChar (List.mem_of_getLast? hb) (by decide)]
    rfl

/-! ### Lines of bytes -/

theorem byteLines_ended {bodies : List (List UInt8)} {rest : List UInt8}
    (hbodies : ∀ body ∈ bodies, 10 ∉ body) (hrest : 10 ∉ rest) :
    byteLines (bodies.flatMap (· ++ [10]) ++ rest) =
      bodies.map dropEnding ++ if rest = [] then [] else [rest] := by
  rw [byteLines, splitOn_flatMap, flatMap_splitOn hbodies, List.splitOn_eq_singleton hrest]
  cases rest <;> simp

theorem dropEnding_concat (bytes : List UInt8) : dropEnding (bytes ++ [13]) = bytes := by
  simp [dropEnding]

theorem dropEnding_of_ne {bytes : List UInt8} (h : bytes.getLast? ≠ some 13) :
    dropEnding bytes = bytes := by
  rw [dropEnding]
  split
  · next rest hreverse =>
    exact absurd (by rw [List.getLast?_eq_head?_reverse, hreverse, List.head?_cons]) h
  · rfl

/-- Lines that are texts are read as these texts. -/
theorem textLines_map (texts : List String) : textLines (texts.map Shell.textBytes) = texts := by
  induction texts with
  | nil => rfl
  | cons text texts ih =>
    have hread : String.fromUTF8? ⟨(Shell.textBytes text).toArray⟩ = some text :=
      fromUTF8?_toUTF8 text
    rw [List.map_cons, textLines, hread, ih]

end Text

/-! ### What is printed -/

/-- A line of text with the ending that it is printed with. -/
structure PrintedLine where
  /-- The text of the line. -/
  text : String
  /-- Whether a carriage return comes before the line feed that ends it. -/
  hasReturn : Bool
  /-- The text is on one line. -/
  feed_notMem : '\n' ∉ text.toList
  /-- The text does not end with what would be taken for a part of the ending. -/
  getLast?_ne : hasReturn = false → text.toList.getLast? ≠ some '\r'

/-- The bytes of a line up to the line feed. -/
def PrintedLine.body (l : PrintedLine) : List UInt8 :=
  Shell.textBytes l.text ++ if l.hasReturn then [13] else []

/-- Text as a program prints it. -/
structure Printout where
  /-- The lines that are ended. -/
  ended : List PrintedLine
  /-- What stands behind the last ending. -/
  rest : String
  /-- Nothing ends it. -/
  feed_notMem : '\n' ∉ rest.toList

theorem PrintedLine.feed_notMem_body (l : PrintedLine) : 10 ∉ l.body := by
  have htext := Text.feed_notMem_textBytes l.feed_notMem
  rw [body]
  split <;> simp [htext]

theorem PrintedLine.dropEnding_body (l : PrintedLine) :
    Text.dropEnding l.body = Shell.textBytes l.text := by
  rw [body]
  split
  · exact Text.dropEnding_concat _
  · next hreturn =>
    rw [List.append_nil]
    exact Text.dropEnding_of_ne fun hlast =>
      l.getLast?_ne (by simpa using hreturn) (Text.getLast?_of_textBytes hlast)

namespace Printout

variable (p : Printout)

/-- The lines, with what stands behind the last ending as one more, if anything does. -/
def lines : List String :=
  p.ended.map (·.text) ++ if p.rest = "" then [] else [p.rest]

/-- The bytes that are printed. -/
def bytes : ByteArray :=
  Shell.bytesOf (p.ended.flatMap (fun l => l.body ++ [10]) ++ Shell.textBytes p.rest)

theorem feed_notMem_lines : ∀ line ∈ p.lines, '\n' ∉ line.toList := by
  intro line hline
  rcases List.mem_append.1 hline with hline | hline
  · obtain ⟨l, -, rfl⟩ := List.mem_map.1 hline
    exact l.feed_notMem
  · split at hline
    · cases hline
    · exact List.mem_singleton.1 hline ▸ p.feed_notMem

/-- The lines that are printed are the lines that are read. -/
theorem textLines_bytes : Text.textLines (Text.byteLines p.bytes.data.toList) = p.lines := by
  have hbodies : ∀ body ∈ p.ended.map PrintedLine.body, 10 ∉ body :=
    List.forall_mem_map.2 fun l _ => l.feed_notMem_body
  have hbytes : p.bytes.data.toList =
      (p.ended.map PrintedLine.body).flatMap (· ++ [10]) ++ Shell.textBytes p.rest := by
    rw [List.flatMap_map]
    rfl
  have hlines : Text.byteLines p.bytes.data.toList = p.lines.map Shell.textBytes := by
    rw [hbytes, Text.byteLines_ended hbodies (Text.feed_notMem_textBytes p.feed_notMem), lines,
      List.map_append, List.map_map, List.map_map]
    refine congrArg₂ _ (List.map_congr_left fun l _ => l.dropEnding_body) ?_
    by_cases hrest : p.rest = "" <;> simp [Text.textBytes_eq_nil_iff, hrest]
  rw [hlines, Text.textLines_map]

end Printout

/-! ### What is kept -/

namespace Outcome

/-- A line is set off from text before it. -/
theorem foldl_lines {kept : String} (hkept : kept ≠ "") (lines : List String) :
    lines.foldl (fun kept line => if kept = "" then line else kept ++ "\n" ++ line) kept =
      "\n".intercalate (kept :: lines) := by
  induction lines generalizing kept with
  | nil => simp
  | cons line lines ih =>
    have hmore : kept ++ "\n" ++ line ≠ "" := by simp
    rw [List.foldl_cons, if_neg hkept, ih hmore]
    cases lines <;> simp [String.intercalate_cons_cons, String.append_assoc]

/-- Of some lines those are kept that come with or after the first one that is not empty. -/
theorem keepLines_eq (lines : List String) :
    keepLines lines = "\n".intercalate (lines.dropWhile (· = "")) := by
  rw [keepLines]
  induction lines with
  | nil => rfl
  | cons line lines ih =>
    rw [List.foldl_cons, if_pos rfl]
    by_cases hline : line = ""
    · rw [List.dropWhile_cons_of_pos (by simpa using hline), hline, ih]
    · rw [List.dropWhile_cons_of_neg (by simpa using hline), foldl_lines hline]

/-- None of the lines is lost: an empty one comes first only where it is the only one. -/
def LosesNone (lines : List String) : Prop :=
  lines.head? = some "" → lines = [""]

theorem keepLines_of_losesNone {lines : List String} (h : LosesNone lines) :
    keepLines lines = "\n".intercalate lines := by
  rw [keepLines_eq]
  cases lines with
  | nil => rfl
  | cons line lines =>
    by_cases hline : line = ""
    · rw [h (by rw [hline, List.head?_cons])]
      rfl
    · rw [List.dropWhile_cons_of_neg (by simpa using hline)]

section

variable {lines : List String} (hne : lines ≠ []) (hlines : ∀ line ∈ lines, '\n' ∉ line.toList)

include hne hlines

/-- Lines are found again in what is kept of them exactly where none is lost. -/
theorem splitString_keepLines_eq_iff :
    Text.splitString '\n' (keepLines lines) = lines ↔ LosesNone lines := by
  constructor
  · intro h hhead
    have hdropped : lines.dropWhile (· = "") ≠ lines := by
      obtain ⟨rest, rfl⟩ := List.head?_eq_some_iff.1 hhead
      rw [Ne, List.dropWhile_eq_self_iff]
      simp
    rw [keepLines_eq] at h
    by_cases hnone : lines.dropWhile (· = "") = []
    · -- what is kept is empty, which is one empty line
      rw [hnone] at h
      exact h.symm
    · have hkept : ∀ line ∈ lines.dropWhile (· = ""), '\n' ∉ line.toList := fun line hline =>
        hlines line ((List.dropWhile_sublist _).subset hline)
      exact absurd ((Text.splitString_intercalate hnone hkept).symm.trans h) hdropped
  · intro h
    rw [keepLines_of_losesNone h]
    exact Text.splitString_intercalate hne hlines

theorem keepLines_eq_intercalate_iff :
    keepLines lines = "\n".intercalate lines ↔ LosesNone lines := by
  refine ⟨fun h => (splitString_keepLines_eq_iff hne hlines).1 ?_, keepLines_of_losesNone⟩
  rw [h]
  exact Text.splitString_intercalate hne hlines

end

end Outcome

/-- What a text has to be to be kept of a printout: its lines from the first one on that is not empty,
joined by line feeds. So it is all lines joined, and the lines are found in it again, exactly where none
is lost. -/
structure Printout.KeptAs (p : Printout) (text : String) : Prop where
  /-- The lines from the first one on that is not empty are joined. -/
  eq_intercalate : text = "\n".intercalate (p.lines.dropWhile (· = ""))
  /-- They are all lines exactly where none is lost. -/
  whole_iff : text = "\n".intercalate p.lines ↔ Outcome.LosesNone p.lines
  /-- Where there are lines, they are found again exactly where none is lost. -/
  found_iff : p.lines ≠ [] → (Text.splitString '\n' text = p.lines ↔ Outcome.LosesNone p.lines)

theorem Printout.keptAs_kept (p : Printout) : p.KeptAs (Outcome.kept p.bytes) := by
  rw [Outcome.kept, p.textLines_bytes]
  refine ⟨Outcome.keepLines_eq _, ?_, fun hne =>
    Outcome.splitString_keepLines_eq_iff hne p.feed_notMem_lines⟩
  by_cases hne : p.lines = []
  · rw [hne]
    exact iff_of_true rfl (by simp [Outcome.LosesNone])
  · exact Outcome.keepLines_eq_intercalate_iff hne p.feed_notMem_lines

namespace Host

/-- What comes of a program that was started. -/
theorem answer_run {h : Host} {i : Invocation} {s : Shell.State} (hstart : h.start i = .ok s) :
    answer (run i h) = Outcome.of i (if s.isKilled then -1 else s.status) s.output s.errors := by
  rw [run, hstart]
  dsimp only
  cases Outcome.of i _ s.output s.errors <;> rfl

/-- **Printed lines are kept from the first one on that is not empty.** For every program that is run
to keep its output, and whatever lines it prints, as output and as errors: where its exit code is no
failure there is an outcome, which holds of each of the two the lines from the first one on that is not
empty, joined by line feeds. All lines are kept, and are found again by splitting at the line feeds,
exactly where no empty line comes first or it is the only one. -/
theorem printed_lines_kept (i : Invocation) (hkeep : i.keepOutput = true) (h : Host)
    (s : Shell.State) (hstart : h.start i = .ok s) (output errors : Printout)
    (houtput : s.output = output.bytes) (herrors : s.errors = errors.bytes) :
    let code : Int := if s.isKilled then -1 else s.status
    (code ≠ 0 ∧ i.allowFailure = false →
      answer (run i h) = .error (.bare (.program (.exited i.line code)))) ∧
    (¬(code ≠ 0 ∧ i.allowFailure = false) → ∃ out err, answer (run i h) = .ok ⟨code, out, err⟩ ∧
      output.KeptAs out ∧ errors.KeptAs err) := by
  intro code
  rw [answer_run hstart, houtput, herrors, Outcome.of]
  refine ⟨fun hfailed => if_pos hfailed, fun hended => ?_⟩
  rw [if_neg hended, if_pos hkeep]
  exact ⟨_, _, rfl, output.keptAs_kept, errors.keptAs_kept⟩

/-! ### Runs of a shell -/

/-- A host with a shell and nothing else. -/
def bare : Host :=
  { files := ⟨.directory [("bin", .directory [("sh", .file .empty true)])], []⟩
    environment := []
    now := ⟨0⟩
    depot := .empty
    recorder := .empty }

/-- The shell of such a host before it runs anything. -/
def bareShell : Shell.State :=
  { files := bare.files, bindings := [], exported := [], name := "/bin/sh", arguments := [],
    sinks := [], input := [], output := .empty, errors := .empty, status := 0, flow := .on }

/-- A text of the shell whose output is kept. -/
def keeping (text : String) : Invocation :=
  { Invocation.shell text with keepOutput := true }

theorem place_sh : bare.files.place (.ofString "/bin/sh") = .ok ⟨["bin", "sh"], true⟩ := by
  have hdir : bare.files.top.get? ["bin"] = some (.directory [("sh", .file .empty true)]) := by
    rfl
  have hpath : Path.ofString "/bin/sh" = Files.pathOf (["bin"] ++ ["sh"]) := by decide +kernel
  rw [hpath, Files.place_below_directory hdir (by decide) (by decide),
    Files.follow_entry (by decide) hdir (by simp), Files.follow]
  rfl

theorem node_sh : bare.files.node (.ofString "/bin/sh") = .ok (.file .empty true) := by
  rw [Files.node, place_sh]
  rfl

/-- A program that is found and has no obstacle is started on the files as they are. -/
theorem start_of_resolve {h : Host} {i : Invocation} {program : Path} (hdir : i.directory? = none)
    (hresolve : h.resolve h.files i = .ok program) (hobstacle : obstacle? h.files program = none) :
    h.start i =
      let environment := i.environment.reverse ++ h.environment.reverse
      let state : Shell.State :=
        { files := h.files, bindings := environment, exported := environment.map (·.1),
          name := program.text, arguments := [], sinks := [], input := [], output := .empty,
          errors := .empty, status := 0, flow := .on }
      .ok (Shell.enterProgram Shell.plenty state.collecting program i.program.text
        i.arguments) := by
  simp only [start, hdir, hresolve, hobstacle, bind, Except.bind]

theorem start_keeping (text : String) : bare.start (keeping text) =
    .ok (Shell.runShell 19999 bareShell.collecting "/bin/sh" ["-c", text]) := by
  have hname : (Path.ofString "/bin/sh").text = "/bin/sh" := by decide +kernel
  have hresolve : resolve bare bare.files (keeping text) = .ok (.ofString "/bin/sh") := by
    refine if_pos ?_
    simp only [keeping, Invocation.shell, Invocation.of, hname]
    decide
  have hobstacle : obstacle? bare.files (.ofString "/bin/sh") = none := by
    rw [obstacle?, place_sh, node_sh]
    rfl
  have henter : Shell.enterProgram Shell.plenty bareShell.collecting (.ofString "/bin/sh") "/bin/sh"
      ["-c", text] = Shell.runShell 19999 bareShell.collecting "/bin/sh" ["-c", text] := by
    have hfiles : bareShell.collecting.files = bare.files := rfl
    rw [Shell.plenty, Shell.enterProgram, hfiles, place_sh, node_sh]
    rfl
  rw [start_of_resolve rfl hresolve hobstacle, ← henter]
  simp only [keeping, Invocation.shell, Invocation.of, hname]
  rfl

/-- A line with nothing on it between two others. -/
def parted : Printout :=
  ⟨[⟨"core", false, by decide, by decide⟩, ⟨"", false, by decide, by decide⟩,
    ⟨"lib", false, by decide, by decide⟩], "", by decide⟩

/-- Nothing. -/
def silent : Printout :=
  ⟨[], "", by decide⟩

theorem printed_lines_kept_of_shell :
    answer (run (keeping "echo core; echo; echo lib") bare) = .ok ⟨0, "core\n\nlib", ""⟩ := by
  have hstart := start_keeping "echo core; echo; echo lib"
  generalize hs : Shell.runShell 19999 bareShell.collecting "/bin/sh" _ = s at hstart
  have houtput : s.output = parted.bytes := by rw [← hs]; decide +kernel
  have herrors : s.errors = silent.bytes := by rw [← hs]; decide +kernel
  have hcode : (if s.isKilled then -1 else s.status : Int) = 0 := by rw [← hs]; decide +kernel
  obtain ⟨out, err, hrun, hout, herr⟩ :=
    (printed_lines_kept _ rfl bare s hstart parted silent houtput herrors).2
      fun hfailed => hfailed.1 hcode
  rw [hrun, hcode, hout.eq_intercalate, herr.eq_intercalate]
  decide +kernel

/-- An empty line that is printed first is not kept, so the lines are not found again. -/
theorem blank_line_lost :
    (Shell.runShell 19999 bareShell.collecting "/bin/sh" ["-c", "echo; echo core"]).output =
        Shell.bytesOf (Shell.textBytes "\ncore\n") ∧
      answer (run (keeping "echo; echo core") bare) = .ok ⟨0, "core", ""⟩ ∧
      Text.splitString '\n' "core" ≠ ["", "core"] := by
  refine ⟨by decide +kernel, ?_, by decide +kernel⟩
  rw [answer_run (start_keeping "echo; echo core")]
  decide +kernel

end Host

end Grove
