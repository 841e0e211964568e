import Grove.Metadata.Build
import Grove.Workflow.CommitMessage
import Grove.Workflow.Skip
import Grove.Proofs.NestedSections
import Grove.Proofs.PropertyFiles

/-!
# Values of projects on lines

A value of a project is what stands between two tags, without the blanks around it. Any text can be
one that is not empty, holds no opening bracket and has no blanks at its ends. Inside it anything else
may stand, a line break too.

What is written from the values a line at a time, that is the property file of the project, the lines
that make a build pass over it and the subject of a commit made for it, has one line for each item
exactly if the values that stand there are on one line each. Only then are the properties read back
from their file.

## What is proved

* `exists_parse_iff` — the values that a project can be read with.
* `splitOn_render`, `lineEnds_render` — the lines of a property file are those of its items.
* `parse_render_eq_iff` — the properties that are read back.
* `firstLine_eq_iff` — when a message has its subject on a line.
* `lines_kept_iff` — what all of this means for a project that has been read.
* `artifact_broken` — a project whose artifact id goes over two lines.
-/

namespace Grove

namespace Text

/-! ### Lines -/

/-- Whether a text stands on one line. -/
def isOneLine (s : String) : Bool :=
  '\n' ∉ s.toList

/-- How many lines of a text are ended. -/
def lineEnds (s : String) : Nat :=
  s.toList.count '\n'

/-- The first line of a text. -/
def firstLine (s : String) : String :=
  String.ofList (s.toList.takeWhile (· != '\n'))

theorem isOneLine_iff {s : String} : isOneLine s = true ↔ '\n' ∉ s.toList :=
  decide_eq_true_iff

theorem lineEnds_eq_zero_iff {s : String} : lineEnds s = 0 ↔ isOneLine s = true := by
  rw [lineEnds, List.count_eq_zero, isOneLine_iff]

@[simp] theorem isOneLine_append (s t : String) :
    isOneLine (s ++ t) = (isOneLine s && isOneLine t) := by
  simp [isOneLine, Bool.decide_and]

theorem isOneLine_join_iff {ss : List String} :
    isOneLine (String.join ss) = true ↔ ∀ s ∈ ss, isOneLine s = true := by
  simp only [isOneLine_iff, String.toList_join, List.mem_flatMap, not_exists, not_and]

/-- What stands before a line break is the first line exactly if it is on one line. -/
theorem firstLine_eq_iff {s rest : String} {cs : List Char} (hrest : rest.toList = '\n' :: cs) :
    firstLine (s ++ rest) = s ↔ isOneLine s = true := by
  rw [firstLine, String.toList_append, hrest, isOneLine_iff]
  constructor
  · intro h hmem
    rw [← h, String.toList_ofList] at hmem
    exact absurd (List.all_eq_true.1 List.all_takeWhile _ hmem) (by decide)
  · intro h
    have hkeep : ∀ c ∈ s.toList, (c != '\n') = true := fun c hc =>
      bne_iff_ne.2 fun hfeed => h (hfeed ▸ hc)
    rw [List.takeWhile_append_of_pos hkeep]
    simp

theorem notMem_of_mem_splitOn {sep : Char} {cs piece : List Char} (h : piece ∈ cs.splitOn sep) :
    sep ∉ piece := by
  induction cs generalizing piece with
  | nil => simp_all
  | cons c cs ih =>
    rw [List.splitOn_cons_eq_if_modifyHead] at h
    split at h
    · rcases List.mem_cons.1 h with rfl | h
      · exact List.not_mem_nil
      · exact ih h
    · next hc =>
      obtain ⟨first, rest, hsplit⟩ := List.exists_cons_of_ne_nil (List.splitOn_ne_nil sep cs)
      rw [hsplit] at h ih
      rcases List.mem_cons.1 h with rfl | h
      · have hc' : sep ≠ c := fun heq => hc (by simp [heq])
        simpa [hc'] using ih List.mem_cons_self
      · exact ih (List.mem_cons_of_mem _ h)

/-! ### Stripped text -/

theorem stripBoth_sublist (p : Char → Bool) (cs : List Char) : (stripBoth p cs).Sublist cs := by
  have hend := (List.dropWhile_sublist p (l := (cs.dropWhile p).reverse)).reverse
  rw [List.reverse_reverse] at hend
  exact hend.trans (List.dropWhile_sublist p)

/-- What has been stripped has nothing more to strip. -/
theorem stripBoth_stripBoth (p : Char → Bool) (cs : List Char) :
    stripBoth p (stripBoth p cs) = stripBoth p cs := by
  have hhead : ∀ (ds : List Char) (c : Char), (ds.dropWhile p).head? = some c → p c = false := by
    intro ds c hc
    have := List.head?_dropWhile_not p ds
    rwa [hc] at this
  refine stripBoth_eq_self_iff.2 ⟨fun c hc => ?_, fun c hc => ?_⟩
  · obtain ⟨dropped, hdropped⟩ := List.dropWhile_suffix p (l := (cs.dropWhile p).reverse)
    have happend : stripBoth p cs ++ dropped.reverse = cs.dropWhile p := by
      rw [stripBoth, dropEndWhile, ← List.reverse_append, hdropped, List.reverse_reverse]
    refine hhead cs c ?_
    rw [← happend, List.head?_append, hc]
    rfl
  · rw [stripBoth, dropEndWhile, List.getLast?_reverse] at hc
    exact hhead _ c hc

end Text

open Text Markup

/-! ### Property files with any values -/

namespace Properties

theorem splitOn_render (ps : Properties) :
    (render ps).toList.splitOn '\n' =
      (ps.flatMap fun e => (lineChars (width ps) e).splitOn '\n') ++ [[]] := by
  rw [toList_render, ← List.append_nil (List.flatMap _ _), splitOn_flatMap, List.flatMap_map,
    List.splitOn_nil]

/-- Besides the lines of the properties a file has those that the values make. -/
theorem lineEnds_render {ps : Properties} (hkeys : ∀ e ∈ ps, isKey e.1 = true) :
    lineEnds (render ps) = ps.length + lineEnds (String.join (ps.map (·.2))) := by
  have hkey : ∀ e ∈ ps, e.1.toList.count '\n' = 0 := fun e he =>
    List.count_eq_zero.2 fun hmem => absurd ((key_chars (hkeys e he)).2 _ hmem) (by decide +kernel)
  rw [lineEnds, lineEnds, toList_render, String.toList_join]
  generalize width ps = column
  clear hkeys
  induction ps with
  | nil => rfl
  | cons e ps ih =>
    obtain ⟨he, hps⟩ := List.forall_mem_cons.1 hkey
    have hline : (lineChars column e).count '\n' = e.2.toList.count '\n' := by
      simp [lineChars, he, List.count_replicate]
    rw [List.map_cons, List.flatMap_cons, List.count_append, List.count_append, hline, ih hps,
      List.map_cons, List.flatMap_cons, List.count_append, List.length_cons,
      List.count_singleton_self]
    omega

/-- Each value is that of a pair in the list. -/
theorem exists_of_mem_ofList {pairs : List (String × String)} {e : String × String}
    (h : e ∈ ofList pairs) : ∃ pair ∈ pairs, e.2 = pair.2 := by
  have key : ∀ (pairs : List (String × String)) (ps : Properties),
      e ∈ pairs.foldl (fun ps pair => put pair.1 pair.2 ps) ps →
        e ∈ ps ∨ ∃ pair ∈ pairs, e.2 = pair.2 := by
    intro pairs
    induction pairs with
    | nil => exact fun ps h => .inl h
    | cons pair pairs ih =>
      intro ps h
      rcases ih (put pair.1 pair.2 ps) h with h | ⟨other, hother, heq⟩
      · exact (Ordered.mem_put _ h).symm.imp_right fun heq => ⟨_, List.mem_cons_self, heq⟩
      · exact .inr ⟨other, List.mem_cons_of_mem _ hother, heq⟩
  exact (key pairs [] h).resolve_left List.not_mem_nil

/-- What a value is made of stands on its line. -/
theorem mem_line_of_mem_value {line : List Char} {e : String × String} (h : entry? line = some e) :
    ∀ c ∈ e.2.toList, c ∈ line := by
  intro c hc
  unfold entry? at h
  dsimp only at h
  split at h
  · cases h
  · split at h
    · next value hvalue =>
      obtain rfl := Option.some.inj h
      rw [String.toList_ofList] at hc
      have hbehind : c ∈ ((line.dropWhile isGap).dropWhile isKeyChar).dropWhile isGap :=
        hvalue ▸ List.mem_cons_of_mem _ ((stripBoth_sublist _ _).mem hc)
      exact ((List.dropWhile_sublist _).trans
        ((List.dropWhile_sublist _).trans (List.dropWhile_sublist _))).mem hbehind
    · cases h

/-- No value that is read goes over the end of its line. -/
theorem isOneLine_of_mem_parse {text : String} {e : String × String} (h : e ∈ parse text) :
    isOneLine e.2 = true := by
  obtain ⟨pair, hpair, heq⟩ := exists_of_mem_ofList h
  obtain ⟨line, hline, hentry⟩ := List.mem_filterMap.1 hpair
  rw [heq, isOneLine_iff]
  exact fun hmem => notMem_of_mem_splitOn hline (mem_line_of_mem_value hentry _ hmem)

/-- What has no blanks at its ends has no spaces and no tabs there. -/
theorem isValue_of_strip {value : String} (h : strip value.toList = value.toList)
    (hline : isOneLine value = true) : isValue value = true := by
  have hgap : ∀ c, isBlank c = false → isGap c = false := by
    intro c hblank
    by_contra hgap
    simp only [isGap, Bool.not_eq_false, Bool.or_eq_true, decide_eq_true_eq] at hgap
    rcases hgap with rfl | rfl <;> exact absurd hblank (by decide)
  obtain ⟨hfirst, hlast⟩ := stripBoth_eq_self_iff.1 h
  simp only [isValue, Bool.and_eq_true, Option.all_eq_true, Bool.not_eq_true']
  exact ⟨⟨hline, fun c hc => hgap c (hfirst c hc)⟩, fun c hc => hgap c (hlast c hc)⟩

/-- Properties whose values have no blanks at their ends are read back exactly if each value is on
one line. -/
theorem parse_render_eq_iff {ps : Properties}
    (hincreasing : Ordered.Increasing compare (ps.map (·.1)))
    (hkeys : ∀ e ∈ ps, isKey e.1 = true) (hvalues : ∀ e ∈ ps, strip e.2.toList = e.2.toList) :
    parse (render ps) = ps ↔ ∀ e ∈ ps, isOneLine e.2 = true := by
  refine ⟨fun h e he => isOneLine_of_mem_parse (h ▸ he), fun h => ?_⟩
  have hread : ∀ e ∈ ps, ((lineChars (width ps) e).splitOn '\n').filterMap entry? = [e] := by
    intro e he
    have hvalue := isValue_of_strip (hvalues e he) (h e he)
    rw [List.splitOn_eq_singleton (feed_notMem_lineChars (hkeys e he) hvalue _)]
    simp [entry?_lineChars (hkeys e he) hvalue]
  have hlast : [[]].filterMap entry? = [] := by decide
  rw [parse, splitOn_render, List.filterMap_append, List.filterMap_flatMap,
    List.flatMap_congr hread, List.flatMap_singleton', hlast, List.append_nil,
    ofList_eq_self hincreasing]

end Properties

/-! ### The values of a project -/

namespace Coordinates

/-- Whether each part stands on one line. -/
def isOneLine (c : Coordinates) : Bool :=
  Text.isOneLine c.group && Text.isOneLine c.artifact && Text.isOneLine c.version

@[simp] theorem isOneLine_text (c : Coordinates) : Text.isOneLine c.text = c.isOneLine := by
  have hcolon : Text.isOneLine ":" = true := by decide
  simp [text, isOneLine, hcolon]

end Coordinates

namespace Pom

/-- The values that are read for a project. -/
def values (pom : Pom) : List String :=
  [pom.coordinates.group, pom.coordinates.artifact, pom.coordinates.version, pom.packaging]

theorem isElementText_iff {s : String} : isElementText s = true ↔
    s ≠ "" ∧ '<' ∉ s.toList ∧ (∀ c, s.toList.head? = some c → isBlank c = false) ∧
      ∀ c, s.toList.getLast? = some c → isBlank c = false := by
  simp only [isElementText, Bool.and_eq_true, decide_eq_true_eq, strip, stripBoth_eq_self_iff,
    and_assoc]

theorem elementText?_plain {name : String} {cs text : List Char}
    (h : elementText? name cs = some text) : '<' ∉ text ∧ strip text = text := by
  fun_induction elementText? name cs with
  | case1 => cases h
  | case2 cs before after hcut rest hdrop =>
    obtain rfl := Option.some.inj h
    refine ⟨fun hmem => ?_, stripBoth_stripBoth _ _⟩
    exact absurd (List.all_eq_true.1 List.all_takeWhile _ ((stripBoth_sublist _ _).mem hmem))
      (by decide)
  | case3 cs before after hcut hdrop hlt ih => exact ih h
  | case4 => cases h

/-- What is read from an element can be a value. -/
theorem isElementText_of_element? {name : String} {cs : List Char} {s : String}
    (h : element? name cs = some s) : isElementText s = true := by
  rw [element?] at h
  split at h
  · cases h
  · next hne =>
    obtain ⟨text, htext, rfl⟩ := Option.map_eq_some_iff.1 h
    obtain ⟨hbracket, hstrip⟩ := elementText?_plain htext
    have hfilled : String.ofList text ≠ "" := fun hnil => hne (by
      rw [htext, ← String.toList_ofList (l := text), hnil]
      rfl)
    simp [isElementText, hfilled, hbracket, hstrip]

/-- All values of a project that has been read can be values. -/
theorem values_of_parse {path : Path} {xml : String} {pom : Pom} (h : parse path xml = .ok pom) :
    pom.path = path ∧ ∀ s ∈ pom.values, isElementText s = true := by
  have hown : ∀ {field s}, ownValue? xml field = some s → isElementText s = true :=
    isElementText_of_element?
  have hinherited : ∀ {field s}, parentValue? xml field = some s → isElementText s = true :=
    fun h => by
      obtain ⟨block, -, helement⟩ := Option.bind_eq_some_iff.1 h
      exact isElementText_of_element? helement
  have heither : ∀ {field s}, (ownValue? xml field <|> parentValue? xml field) = some s →
      isElementText s = true := fun h => by
    rcases Option.or_eq_some_iff.1 (Option.orElse_eq_or.symm.trans h) with h | ⟨-, h⟩
    · exact hown h
    · exact hinherited h
  rw [parse_eq, reading] at h
  split at h
  · cases h
  · cases h
  · cases h
  · next artifact group version hartifact hgroup hversion =>
    obtain rfl := Except.ok.inj h
    refine ⟨rfl, ?_⟩
    simp only [values, List.forall_mem_cons, List.not_mem_nil, false_imp_iff, implies_true, and_true]
    refine ⟨heither hgroup, hown hartifact, heither hversion, ?_⟩
    cases hpackaging : ownValue? xml .packaging with
    | none => decide
    | some packaging => exact hown hpackaging

/-- The text of a project file that says what a project is and nothing more. -/
def plainText (pom : Pom) : String :=
  "<project><groupId>" ++ pom.coordinates.group ++ "</groupId><artifactId>" ++
    pom.coordinates.artifact ++ "</artifactId><version>" ++ pom.coordinates.version ++
    "</version><packaging>" ++ pom.packaging ++ "</packaging></project>"

/-- A project can be read with any values. -/
theorem parse_plainText {pom : Pom} (h : ∀ s ∈ pom.values, isElementText s = true) :
    parse pom.path pom.plainText = .ok pom := by
  obtain ⟨path, ⟨group, artifact, version⟩, packaging⟩ := pom
  simp only [values, List.forall_mem_cons] at h
  obtain ⟨hgroup, hartifact, hversion, hpackaging, -⟩ := h
  let sheet : Sheet :=
    { above := [{ field := .group, value := ⟨group, hgroup⟩ },
        { field := .artifact, value := ⟨artifact, hartifact⟩ },
        { field := .version, value := ⟨version, hversion⟩ },
        { field := .packaging, value := ⟨packaging, hpackaging⟩ }]
      parent? := none
      below := [] }
  have htext : plainText ⟨path, ⟨group, artifact, version⟩, packaging⟩ = sheet.text := by
    refine String.toList_inj.1 ?_
    unfold plainText
    rw [Sheet.text, String.toList_ofList]
    simp [sheet, Sheet.tokens, Entry.tokens, Entry.elementTokens, Token.chars, openTag, closeTag,
      Field.name]
  rw [htext, Sheet.parse_text]
  rfl

/-- Projects are read with such values and with no others. -/
theorem exists_parse_iff {path : Path} {pom : Pom} : (∃ xml, parse path xml = .ok pom) ↔
    pom.path = path ∧ ∀ s ∈ pom.values, isElementText s = true := by
  refine ⟨fun ⟨_, h⟩ => values_of_parse h, fun ⟨hpath, hvalues⟩ => ?_⟩
  exact ⟨pom.plainText, hpath ▸ parse_plainText hvalues⟩

/-! ### What is written from them -/

/-- The properties of a project in the order of their keys. -/
theorem properties_eq (pom : Pom) : pom.properties =
    [("project-artifact-id", pom.coordinates.artifact), ("project-group-id", pom.coordinates.group),
      ("project-name", pom.coordinates.artifact), ("project-version", pom.coordinates.version)] := by
  rfl

theorem increasing_properties (pom : Pom) :
    Ordered.Increasing compare (pom.properties.map (·.1)) := by
  have hkeys : pom.properties.map (·.1) =
      ["project-artifact-id", "project-group-id", "project-name", "project-version"] := by
    rw [properties_eq]
    rfl
  rw [hkeys, Ordered.Increasing]
  decide

theorem isKey_properties (pom : Pom) : ∀ e ∈ pom.properties, Properties.isKey e.1 = true := by
  rw [properties_eq]
  simp only [List.forall_mem_cons]
  decide +kernel

theorem mem_values_of_mem_properties {pom : Pom} : ∀ e ∈ pom.properties, e.2 ∈ pom.values := by
  simp [properties_eq, values]

theorem isOneLine_properties_iff (pom : Pom) :
    (∀ e ∈ pom.properties, isOneLine e.2 = true) ↔ pom.coordinates.isOneLine = true := by
  simp only [properties_eq, List.forall_mem_cons, List.not_mem_nil, false_imp_iff, implies_true,
    and_true, Coordinates.isOneLine, Bool.and_eq_true]
  tauto

theorem lineEnds_properties_iff (pom : Pom) :
    lineEnds pom.properties.render = pom.properties.length ↔ pom.coordinates.isOneLine = true := by
  rw [Properties.lineEnds_render pom.isKey_properties, Nat.add_eq_left, lineEnds_eq_zero_iff,
    isOneLine_join_iff, List.forall_mem_map, isOneLine_properties_iff]

theorem isOneLine_skipLines_iff (properties : List String) (pom : Pom) :
    (∀ line ∈ skipLines properties pom, isOneLine line = true) ↔ ∀ property ∈ properties,
      isOneLine pom.coordinates.group = true ∧ isOneLine pom.coordinates.artifact = true ∧
        isOneLine property = true := by
  have hsigns : isOneLine ":" = true ∧ isOneLine " " = true ∧ isOneLine "=true" = true := by decide
  simp [skipLines, hsigns, and_assoc]

theorem firstLine_onHost_iff (pom : Pom) (checkouts : List Checkout) (h : Host) :
    firstLine (CommitMessage.onHost pom checkouts h) = "Generated commit " ++ pom.coordinates.text ↔
      pom.coordinates.isOneLine = true := by
  obtain ⟨rest, hrest⟩ : ∃ rest, CommitMessage.onHost pom checkouts h =
      "Generated commit " ++ pom.coordinates.text ++ ("\n\n" ++ rest) := by
    unfold CommitMessage.onHost CommitMessage.text
    simp only [String.append_assoc]
    exact ⟨_, rfl⟩
  have hfeeds : ("\n\n" ++ rest).toList = '\n' :: '\n' :: rest.toList := by
    simp [String.toList_append]
  have hstart : isOneLine "Generated commit " = true := by decide
  rw [hrest, firstLine_eq_iff hfeeds, isOneLine_append, hstart, Bool.true_and,
    Coordinates.isOneLine_text]

/-- **A line for each item where the values are on lines.** A project can be read with any values
that are not empty, hold no opening bracket and neither begin nor end with a blank, and with no
others. The property file of a project that has been read has one line for each property exactly if
its coordinates are on one line each, and exactly then the properties are read back from it, and the
subject of a commit made for the project is the first line of the message. The lines that make a
build pass over the project are lines exactly if its group id, its artifact id and the properties
are. -/
theorem lines_kept_iff (path : Path) (pom : Pom) :
    ((∃ xml, parse path xml = .ok pom) ↔ pom.path = path ∧ ∀ s ∈ pom.values,
      s ≠ "" ∧ '<' ∉ s.toList ∧ (∀ c, s.toList.head? = some c → isBlank c = false) ∧
        ∀ c, s.toList.getLast? = some c → isBlank c = false) ∧
    ∀ xml, parse path xml = .ok pom →
      (lineEnds pom.properties.render = pom.properties.length ↔
        pom.coordinates.isOneLine = true) ∧
      (Properties.parse pom.properties.render = pom.properties ↔
        pom.coordinates.isOneLine = true) ∧
      (∀ properties, (∀ line ∈ skipLines properties pom, isOneLine line = true) ↔
        ∀ property ∈ properties, isOneLine pom.coordinates.group = true ∧
          isOneLine pom.coordinates.artifact = true ∧ isOneLine property = true) ∧
      ∀ checkouts h, firstLine (CommitMessage.onHost pom checkouts h) =
        "Generated commit " ++ pom.coordinates.text ↔ pom.coordinates.isOneLine = true := by
  refine ⟨by simp only [exists_parse_iff, isElementText_iff], fun xml h => ?_⟩
  refine ⟨pom.lineEnds_properties_iff, ?_, fun properties => isOneLine_skipLines_iff properties pom,
    pom.firstLine_onHost_iff⟩
  obtain ⟨-, hvalues⟩ := values_of_parse h
  have hstrip : ∀ e ∈ pom.properties, strip e.2.toList = e.2.toList := fun e he =>
    Value.strip_eq ⟨e.2, hvalues _ (mem_values_of_mem_properties e he)⟩
  rw [Properties.parse_render_eq_iff pom.increasing_properties pom.isKey_properties hstrip,
    isOneLine_properties_iff]

/-- A project with an artifact id. -/
def projectWith (artifact : String) : Pom :=
  ⟨.ofString "core/pom.xml", ⟨"org.kivakit", artifact, "1.0.0"⟩, "jar"⟩

/-- The properties of a project on one line are read back from their file. -/
theorem lines_kept_iff_core :
    parse (.ofString "core/pom.xml") (projectWith "core").plainText = .ok (projectWith "core") ∧
    lineEnds (projectWith "core").properties.render = 4 ∧
    Properties.parse (projectWith "core").properties.render = (projectWith "core").properties := by
  have hparse : parse (.ofString "core/pom.xml") (projectWith "core").plainText =
      .ok (projectWith "core") := parse_plainText (by decide)
  obtain ⟨-, hlines⟩ := lines_kept_iff (.ofString "core/pom.xml") (projectWith "core")
  obtain ⟨hends, hread, -⟩ := hlines _ hparse
  exact ⟨hparse, hends.2 (by decide), hread.2 (by decide)⟩

/-- An artifact id that goes over two lines is read as it is. It breaks two of the lines of the
property file, which is not read back as it was, and the line that makes a build pass over it. -/
theorem artifact_broken :
    parse (.ofString "core/pom.xml") ("<project><groupId>org.kivakit</groupId><artifactId>core\nlib" ++
      "</artifactId><version>1.0.0</version><packaging>jar</packaging></project>") =
        .ok (projectWith "core\nlib") ∧
    lineEnds (projectWith "core\nlib").properties.render = 6 ∧
    (Properties.parse (projectWith "core\nlib").properties.render).map (·.2) =
      ["core", "org.kivakit", "core", "1.0.0"] ∧
    ¬∀ line ∈ skipLines ["skip"] (projectWith "core\nlib"), isOneLine line = true := by
  have htext : "<project><groupId>org.kivakit</groupId><artifactId>core\nlib" ++
      "</artifactId><version>1.0.0</version><packaging>jar</packaging></project>" =
        (projectWith "core\nlib").plainText := by
    decide +kernel
  have hparse : parse (projectWith "core\nlib").path (projectWith "core\nlib").plainText =
      .ok (projectWith "core\nlib") := parse_plainText (by decide)
  have hends : lineEnds (projectWith "core\nlib").properties.render = 6 := by
    rw [Properties.lineEnds_render (isKey_properties _)]
    decide
  exact ⟨htext ▸ hparse, hends, by decide +kernel, by decide +kernel⟩

end Pom

end Grove
