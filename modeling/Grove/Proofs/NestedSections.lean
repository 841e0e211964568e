import Grove.Proofs.ProjectSheets

/-!
# Nested sections of project files

The text of a project file from a tree of elements, and what a nested section of it can do to the
coordinates. A section is removed up to the nearest closing tag of its name, and the parent block is
looked for before any section is removed. So a section is not always removed as a whole: another one
of the same name inside it ends it early, and a parent block inside it counts as that of the project.

What is done to a row of closed tags is done to each part of it alone (`IsRow`), so what a section
does to any project file can be told from the section by itself: it leaves no trace exactly if, read
by itself, it shows neither a parent block nor an element that is read (`Sealed`).

## What is proved

* `sections_append_of_none`, `sections_append_of_some` — rows in a row are taken apart one by one.
* `parse_sealed`, `sealed_of_probes` — a sealed section leaves no trace, and any other one shows in
  a project that is made for it.
* `sealed_of_names` — a section without another one of its name and without a parent block is sealed.
* `section_sealed_iff` — exactly the sealed sections can be exchanged in every project file.
* `section_shows` — a setting of a plugin that becomes the packaging of the project.
-/

namespace Grove.Pom

open Text Markup

/-! ### Closed rows -/

/-- The names that a project file is read by. -/
def readNames : List String :=
  "parent" :: nestedSections ++ fieldNames

/-- A text in which every tag that matters is closed. -/
def IsRow (cs : List Char) : Prop :=
  ∃ ts, Proper ts ∧ Closed readNames ts ∧ cs = written ts

theorem isTagName_of_mem {name : String} (h : name ∈ readNames) : isTagName name = true := by
  revert name
  decide

theorem Field.name_mem (field : Field) : field.name ∈ readNames := by
  cases field <;> decide

theorem Field.name_mem_fieldNames (field : Field) : field.name ∈ fieldNames := by
  cases field <;> decide

theorem exists_field {name : String} (h : name ∈ fieldNames) :
    ∃ field : Field, name = field.name := by
  simp only [fieldNames, List.mem_cons, List.not_mem_nil, or_false] at h
  rcases h with rfl | rfl | rfl | rfl
  · exact ⟨.group, rfl⟩
  · exact ⟨.artifact, rfl⟩
  · exact ⟨.version, rfl⟩
  · exact ⟨.packaging, rfl⟩

namespace IsRow

variable {a b : List Char}

theorem append (ha : IsRow a) (hb : IsRow b) : IsRow (a ++ b) := by
  obtain ⟨ts, hts, hclosed, rfl⟩ := ha
  obtain ⟨us, hus, hclosed', rfl⟩ := hb
  exact ⟨ts ++ us, hts.append hus, hclosed.append hclosed', (written_append ts us).symm⟩

/-- Comments cannot be found in a row. -/
theorem removeBlocks_comments (ha : IsRow a) :
    removeBlocks "<!--".toList "-->".toList a = a := by
  obtain ⟨ts, hts, -, rfl⟩ := ha
  rw [Markup.removeBlocks_comments fun t ht => .inl (hts t ht), List.filter_eq_self.2]
  intro t ht
  have hproper := hts t ht
  cases t with
  | comment text => cases hproper
  | _ => rfl

/-- Nested sections are removed from a row and from what follows it apart. -/
theorem remains_nested (ha : IsRow a) :
    IsRow (remains nestedSections a) ∧
      ∀ cs, remains nestedSections (a ++ cs) =
        remains nestedSections a ++ remains nestedSections cs := by
  have hnames : ∀ name ∈ nestedSections, name ∈ readNames ∧ isTagName name = true := by decide
  obtain ⟨ts, hts, hclosed, rfl⟩ := ha
  obtain ⟨us, hsub, hus, hremains⟩ := hclosed.exists_remains hnames hts
  have hself := hremains []
  rw [remains_nil, List.append_nil, List.append_nil] at hself
  rw [hself]
  exact ⟨⟨us, hts.sublist hsub, hus, rfl⟩, hremains⟩

theorem elementText?_append (ha : IsRow a) (field : Field) (cs : List Char) :
    elementText? field.name (a ++ cs) =
      (elementText? field.name a).or (elementText? field.name cs) := by
  obtain ⟨ts, hts, hclosed, rfl⟩ := ha
  exact hclosed.elementText?_append field.name_mem field.isTagName hts cs

end IsRow

/-! ### Taking a row apart -/

theorem IsRow.nil : IsRow [] :=
  ⟨[], List.forall_mem_nil _, .nil, rfl⟩

theorem sections_nil : sections [] = (none, []) := by
  decide +kernel

section

variable {a b inner : List Char}

/-- A row is taken apart with or without a parent block, whatever follows it. -/
theorem sections_cases (ha : IsRow a) :
    (∃ inner rest, IsRow rest ∧ sections a = (some inner, rest) ∧ ∀ b, IsRow b →
        sections (a ++ b) = (some inner, rest ++ remains nestedSections b)) ∨
      (sections a = (none, remains nestedSections a) ∧ ∀ b, IsRow b →
        sections (a ++ b) =
          ((sections b).1, remains nestedSections a ++ (sections b).2)) := by
  obtain ⟨ts, hts, hclosed, heq⟩ := id ha
  have hparent : "parent" ∈ readNames := by decide
  have htag := isTagName_of_mem hparent
  by_cases hmem : Token.opening "parent" ∈ ts
  · obtain ⟨inner, us, hsub, hus, htake⟩ := hclosed.exists_takeBlock? hparent htag hts hmem
    rw [← heq] at htake
    have hrow : IsRow (written us) := ⟨us, hts.sublist hsub, hus, rfl⟩
    have happend : ∀ b, IsRow b → sections (a ++ b) = (some inner,
        remains nestedSections (written us) ++ remains nestedSections b) := by
      intro b hb
      rw [sections_of_block (ha.append hb).removeBlocks_comments (htake b), hrow.remains_nested.2]
    refine .inl ⟨inner, _, hrow.remains_nested.1, ?_, happend⟩
    have hself := happend [] .nil
    rwa [← hrow.remains_nested.2, List.append_nil, List.append_nil] at hself
  · have happend : ∀ b, IsRow b → sections (a ++ b) =
        ((sections b).1, remains nestedSections a ++ (sections b).2) := by
      intro b hb
      have hskip := takeBlock?_skip htag hts hmem b
      rw [← heq] at hskip
      cases htake : takeBlock? (openTag "parent") (closeTag "parent") b with
      | none =>
        rw [htake, Option.map_none] at hskip
        rw [sections_of_none (ha.append hb).removeBlocks_comments hskip,
          sections_of_none hb.removeBlocks_comments htake, ha.remains_nested.2]
      | some found =>
        rw [htake, Option.map_some] at hskip
        rw [sections_of_block (ha.append hb).removeBlocks_comments hskip,
          sections_of_block hb.removeBlocks_comments htake, ha.remains_nested.2]
    refine .inr ⟨?_, happend⟩
    have hself := happend [] .nil
    rwa [sections_nil, List.append_nil, List.append_nil] at hself

theorem IsRow.sections (ha : IsRow a) : IsRow (sections a).2 := by
  rcases sections_cases ha with ⟨_, _, hrest, hself, -⟩ | ⟨hself, -⟩
  · rwa [hself]
  · rw [hself]
    exact ha.remains_nested.1

/-- Without a parent block only the nested sections are removed. -/
theorem sections_snd_of_none (ha : IsRow a) (h : (sections a).1 = none) :
    (sections a).2 = remains nestedSections a := by
  rcases sections_cases ha with ⟨_, _, -, hself, -⟩ | ⟨hself, -⟩
  · rw [hself] at h
    cases h
  · rw [hself]

/-- What follows a row without a parent block is taken apart by itself. -/
theorem sections_append_of_none (ha : IsRow a) (h : (sections a).1 = none) (hb : IsRow b) :
    sections (a ++ b) = ((sections b).1, (sections a).2 ++ (sections b).2) := by
  rcases sections_cases ha with ⟨_, _, -, hself, -⟩ | ⟨hself, happend⟩
  · rw [hself] at h
    cases h
  · rw [happend b hb, hself]

/-- From what follows a row with a parent block only the nested sections are removed. -/
theorem sections_append_of_some (ha : IsRow a) (h : (sections a).1 = some inner) (hb : IsRow b) :
    sections (a ++ b) = (some inner, (sections a).2 ++ remains nestedSections b) := by
  rcases sections_cases ha with ⟨_, _, -, hself, happend⟩ | ⟨hself, -⟩
  · rw [hself] at h
    rw [happend b hb, hself, ← Option.some.inj h]
  · rw [hself] at h
    cases h

end

/-! ### Trees of elements -/

/-- A name that can stand in a tag. -/
structure TagName where
  /-- The name. -/
  text : String
  /-- It neither ends the tag nor makes it another kind of mark. -/
  valid : isTagName text = true := by decide

/-- Text between tags. -/
structure PlainText where
  /-- The characters. -/
  chars : List Char
  /-- No tag starts in it. -/
  valid : '<' ∉ chars := by decide

/-- A tree of elements without attributes. -/
inductive Xml where
  /-- Text between elements. -/
  | text (t : PlainText)
  /-- An element and what it holds. -/
  | element (name : TagName) (content : List Xml)

namespace Xml

mutual

/-- The tokens of a tree. -/
def tokens : Xml → List Token
  | .text t => [.plain t.chars]
  | .element name content => .opening name.text :: (rowTokens content ++ [.closing name.text])

/-- The tokens of some trees in a row. -/
def rowTokens : List Xml → List Token
  | [] => []
  | x :: xs => x.tokens ++ rowTokens xs

end

theorem rowTokens_append (xs ys : List Xml) :
    rowTokens (xs ++ ys) = rowTokens xs ++ rowTokens ys := by
  induction xs with
  | nil => rfl
  | cons x xs ih => rw [List.cons_append, rowTokens, ih, ← List.append_assoc, ← rowTokens]

mutual

theorem proper_tokens (x : Xml) : Proper x.tokens := by
  cases x with
  | text t => simpa [Proper, tokens, Token.isProper] using t.valid
  | element name content =>
    have hname : Token.isProper (.opening name.text) = true ∧
        Token.isProper (.closing name.text) = true := ⟨name.valid, name.valid⟩
    rw [tokens]
    refine List.forall_mem_cons.2 ⟨hname.1, Proper.append (proper_rowTokens content) ?_⟩
    simpa [Proper] using hname.2

theorem proper_rowTokens (xs : List Xml) : Proper (rowTokens xs) := by
  cases xs with
  | nil => exact List.forall_mem_nil _
  | cons x xs => exact Proper.append x.proper_tokens (proper_rowTokens xs)

end

mutual

/-- The tags of a tree are closed, whatever the names. -/
theorem closed_tokens (names : List String) (x : Xml) : Closed names x.tokens := by
  cases x with
  | text t => exact .other (fun _ _ => Token.noConfusion) .nil
  | element name content => exact .element (closed_rowTokens names content) .nil

theorem closed_rowTokens (names : List String) (xs : List Xml) :
    Closed names (rowTokens xs) := by
  cases xs with
  | nil => exact .nil
  | cons x xs => exact (x.closed_tokens names).append (closed_rowTokens names xs)

end

end Xml

/-! ### The text of a project file -/

/-- The text of a project file whose project holds some trees. -/
def projectText (content : List Xml) : String :=
  String.ofList (written (Xml.element ⟨"project", by decide⟩ content).tokens)

/-- The start of a project file. -/
def upper (before : List Xml) : List Char :=
  written (.opening "project" :: Xml.rowTokens before)

/-- The end of a project file. -/
def lower (after : List Xml) : List Char :=
  written (Xml.rowTokens after ++ [.closing "project"])

theorem projectText_append (before after : List Xml) :
    (projectText (before ++ after)).toList = upper before ++ lower after := by
  simp [projectText, upper, lower, Xml.tokens, Xml.rowTokens_append]

theorem lower_cons (x : Xml) (after : List Xml) :
    lower (x :: after) = written x.tokens ++ lower after := by
  simp [lower, Xml.rowTokens]

theorem isRow_tokens (x : Xml) : IsRow (written x.tokens) :=
  ⟨_, x.proper_tokens, x.closed_tokens _, rfl⟩

theorem isRow_upper (before : List Xml) : IsRow (upper before) := by
  have hproject : ∀ name ∈ readNames, Token.opening "project" ≠ .opening name := by decide
  exact ⟨_, List.forall_mem_cons.2 ⟨by decide, Xml.proper_rowTokens before⟩,
    .other hproject (Xml.closed_rowTokens _ before), rfl⟩

theorem isRow_lower (after : List Xml) : IsRow (lower after) := by
  have hproject : Proper [Token.closing "project"] := List.forall_mem_singleton.2 (by decide)
  exact ⟨_, (Xml.proper_rowTokens after).append hproject,
    (Xml.closed_rowTokens _ after).append (Closed.nil.cons_closing _), rfl⟩

/-- What the project itself gives a field. -/
def ownValue? (xml : String) (field : Field) : Option String :=
  element? field.name (sections xml.toList).2

/-- What the parent block gives a field. -/
def parentValue? (xml : String) (field : Field) : Option String :=
  (sections xml.toList).1.bind (element? field.name)

theorem parse_eq (path : Path) (xml : String) :
    parse path xml = reading path (ownValue? xml) (parentValue? xml) :=
  parse_eq_reading path (fun _ => rfl) fun _ => rfl

/-- The characters of a written file need not go through a string. -/
theorem parse_projectText (path : Path) (content : List Xml) :
    let plain := written (Xml.element ⟨"project", by decide⟩ content).tokens
    parse path (projectText content) =
      reading path (fun field => element? field.name (sections plain).2) fun field =>
        (sections plain).1.bind (element? field.name) := by
  intro plain
  have htext : (projectText content).toList = plain := String.toList_ofList
  refine parse_eq_reading path (fun field => ?_) fun field => ?_ <;> rw [htext]

/-- Project files that show the same parent block and the same elements are read alike. -/
theorem parse_congr (path : Path) {xml xml' : String}
    (hparent : (sections xml.toList).1 = (sections xml'.toList).1)
    (hbody : ∀ field : Field, elementText? field.name (sections xml.toList).2 =
      elementText? field.name (sections xml'.toList).2) :
    parse path xml = parse path xml' := by
  have hown : ownValue? xml = ownValue? xml' :=
    funext fun field => by rw [ownValue?, element?, hbody, ← element?, ← ownValue?]
  have hinherited : parentValue? xml = parentValue? xml' :=
    funext fun field => by rw [parentValue?, hparent, ← parentValue?]
  rw [parse_eq, parse_eq, hown, hinherited]

/-! ### Sealed sections -/

/-- The text of a section. -/
def sectionText (s : TagName) (content : List Xml) : List Char :=
  written (Xml.element s content).tokens

/-- A section that shows nothing when it is read by itself: no parent block, and nothing that gives
a field a value. -/
def Sealed (s : TagName) (content : List Xml) : Prop :=
  (sections (sectionText s content)).1 = none ∧
    ∀ name ∈ fieldNames, elementText? name (sections (sectionText s content)).2 = none

instance (s : TagName) (content : List Xml) : Decidable (Sealed s content) :=
  inferInstanceAs (Decidable (_ ∧ _))

variable {s : TagName} {content : List Xml}

theorem isRow_sectionText : IsRow (sectionText s content) :=
  isRow_tokens _

/-- A sealed section leaves no trace in any project file. -/
theorem parse_sealed (h : Sealed s content) (path : Path) (before after : List Xml) :
    parse path (projectText (before ++ .element s content :: after)) =
      parse path (projectText (before ++ after)) := by
  obtain ⟨hparent, hfields⟩ := h
  have hsection := @isRow_sectionText s content
  have hupper := isRow_upper before
  have hlower := isRow_lower after
  have hsilent : ∀ (field : Field) (cs : List Char),
      elementText? field.name ((sections (sectionText s content)).2 ++ cs) =
        elementText? field.name cs := by
    intro field cs
    rw [hsection.sections.elementText?_append, hfields _ field.name_mem_fieldNames,
      Option.none_or]
  have hsections := sections_append_of_none hsection hparent hlower
  have htext := projectText_append before (.element s content :: after)
  rw [lower_cons, ← sectionText] at htext
  cases hfirst : (sections (upper before)).1 with
  | none =>
    have hwith := sections_append_of_none hupper hfirst (hsection.append hlower)
    have hwithout := sections_append_of_none hupper hfirst hlower
    rw [hsections] at hwith
    refine parse_congr path ?_ fun field => ?_ <;> rw [htext, projectText_append, hwith, hwithout]
    simp only [hupper.sections.elementText?_append, hsilent]
  | some inner =>
    have hwith := sections_append_of_some hupper hfirst (hsection.append hlower)
    have hwithout := sections_append_of_some hupper hfirst hlower
    rw [hsection.remains_nested.2, ← sections_snd_of_none hsection hparent] at hwith
    refine parse_congr path ?_ fun field => ?_ <;> rw [htext, projectText_append, hwith, hwithout]
    simp only [hupper.sections.elementText?_append, hsilent]

/-- A nested section without another one of its name in it is removed as a whole. -/
theorem remains_sectionText (hs : s.text ∈ nestedSections)
    (h : s.text ∉ tagNames (Xml.rowTokens content)) :
    remains nestedSections (sectionText s content) = [] := by
  obtain ⟨earlier, later, hsplit, hearlier⟩ := List.eq_append_cons_of_mem hs
  have hnames : ∀ name ∈ earlier, name ∈ earlier ∧ isTagName name = true := by
    have htags : ∀ name ∈ nestedSections, isTagName name = true := by decide
    exact fun name hname => ⟨hname, htags name (hsplit ▸ List.mem_append_left _ hname)⟩
  have hopening : ∀ name ∈ earlier, isTagName name = true ∧
      Token.opening name ∉ [Token.opening s.text] := by
    refine fun name hname => ⟨(hnames name hname).2, fun hmem => hearlier ?_⟩
    rw [← Token.opening.inj (List.mem_singleton.1 hmem)]
    exact hname
  have hclosing : ∀ name ∈ earlier, isTagName name = true ∧
      Token.opening name ∉ [Token.closing s.text] :=
    fun name hname => ⟨(hnames name hname).2, by simp⟩
  have hopen : Proper [Token.opening s.text] := List.forall_mem_singleton.2 s.valid
  have hclose : Proper [Token.closing s.text] := List.forall_mem_singleton.2 s.valid
  -- the sections that are removed before this one are removed inside it
  obtain ⟨us, hsub, -, hremains⟩ :=
    (Xml.closed_rowTokens earlier content).exists_remains hnames (Xml.proper_rowTokens content)
  have hinner : Token.closing s.text ∉ us := fun hmem => closing_notMem h (hsub.subset hmem)
  have htext : sectionText s content = written [.opening s.text] ++
      (written (Xml.rowTokens content) ++ written [.closing s.text]) := by
    simp [sectionText, Xml.tokens]
  have hstart : cut (openTag s.text) (openTag s.text ++ (written us ++ closeTag s.text)) =
      some ([], written us ++ closeTag s.text) := cut_append_self (openTag_ne_nil _) _
  have hend : cut (closeTag s.text) (written us ++ closeTag s.text) = some (written us, []) := by
    have hat := cut_written_at (k := .closing s.text) s.valid rfl
      ((Xml.proper_rowTokens content).sublist hsub) hinner []
    rwa [Token.chars_closing, List.append_nil] at hat
  have hblock := removeBlocks_block (openTag_ne_nil s.text) hstart hend
  rw [hsplit, remains_append, htext, remains_written hopen hopening, hremains,
    remains_of_notMem hclose hclosing, remains_cons, written_cons, written_cons, written_nil,
    List.append_nil, List.append_nil, Token.chars_opening, Token.chars_closing, hblock,
    removeBlocks_nil (openTag_ne_nil s.text), List.append_nil, remains_nil]

/-- Without a section of its own name and without a parent block in it, a section is sealed. -/
theorem sealed_of_names (hs : s.text ∈ nestedSections)
    (h : ∀ name ∈ tagNames (Xml.rowTokens content), name ≠ s.text ∧ name ≠ "parent") :
    Sealed s content := by
  have hne : s.text ≠ "parent" := fun heq => absurd (heq ▸ hs) (by decide)
  have hparent : Token.opening "parent" ∉ (Xml.element s content).tokens := by
    refine opening_notMem fun hmem => ?_
    simp only [Xml.tokens, tagNames_opening, tagNames_append, tagNames_closing, tagNames_nil,
      List.mem_cons, List.mem_append, List.not_mem_nil, or_false] at hmem
    rcases hmem with hmem | hmem | hmem
    · exact hne hmem.symm
    · exact (h _ hmem).2 rfl
    · exact hne hmem.symm
  have hblock := takeBlock?_skip (isTagName_of_mem (by decide)) (Xml.proper_tokens _) hparent []
  rw [List.append_nil] at hblock
  have hsections := sections_of_none isRow_sectionText.removeBlocks_comments hblock
  rw [remains_sectionText hs fun hmem => (h _ hmem).1 rfl] at hsections
  rw [Sealed, hsections]
  exact ⟨rfl, fun name _ => elementText?_nil name⟩

/-! ### Sections that show -/

/-- All fields. -/
def allFields : List Field :=
  [.group, .artifact, .version, .packaging]

/-- The element that gives a field a value. -/
def leaf (field : Field) (value : Value) : Xml :=
  .element ⟨field.name, field.isTagName⟩ [.text ⟨value.text.toList, value.bracket_notMem⟩]

/-- A parent block that has only an artifact id, and elements that give every field the value. -/
def probe (value : Value) : List Xml :=
  .element ⟨"parent", by decide⟩ [leaf .artifact ⟨"parent", by decide⟩] ::
    allFields.map (leaf · value)

/-- The elements of the probe. -/
def probeSheet (value : Value) : Sheet where
  above := []
  parent? := some { entries := [{ field := .artifact, value := ⟨"parent", by decide⟩ }] }
  below := allFields.map fun field => { field, value }

section

variable (w : Value)

theorem projectText_probe : projectText (probe w) = (probeSheet w).text := by
  simp [projectText, probe, leaf, Xml.tokens, Xml.rowTokens, Sheet.text, Sheet.tokens,
    ParentBlock.tokens, Entry.tokens, Entry.elementTokens, allFields, probeSheet, Token.chars]

/-- A project with the probe is read with the value in every field. -/
theorem parse_probe (path : Path) :
    parse path (projectText (probe w)) = .ok ⟨path, ⟨w.text, w.text, w.text⟩, w.text⟩ := by
  rw [projectText_probe, (probeSheet w).parse_text]
  rfl

/-- The parent block of the probe is found. -/
theorem sections_probe : (sections (lower (probe w))).1 =
    some "<artifactId>parent</artifactId>".toList := by
  have hupper : (sections (upper [])).1 = none := by decide +kernel
  have hsplit := sections_append_of_none (isRow_upper []) hupper (isRow_lower (probe w))
  have hsections := (probeSheet w).sections_tokens
  rw [← projectText_append, List.nil_append, projectText_probe, Sheet.text, String.toList_ofList,
    hsections] at hsplit
  exact (congrArg Prod.fst hsplit).symm

/-- Where another parent block comes first, the artifact id in that of the probe is found. -/
theorem artifact_probe : elementText? "artifactId" (remains nestedSections (lower (probe w))) =
    some "parent".toList := by
  let e : Entry := { field := .artifact, value := ⟨"parent", by decide⟩ }
  have hproper : Proper (Xml.rowTokens (probe w) ++ [.closing "project"]) :=
    (Xml.proper_rowTokens _).append (List.forall_mem_singleton.2 (by decide))
  have hnames : ∀ name ∈ nestedSections, isTagName name = true ∧
      name ∉ tagNames (Xml.rowTokens (probe w) ++ [.closing "project"]) := by
    change ∀ name ∈ nestedSections, isTagName name = true ∧ name ∉ ["parent", "artifactId",
      "artifactId", "parent", "groupId", "groupId", "artifactId", "artifactId", "version",
      "version", "packaging", "packaging", "project"]
    decide
  have htext : lower (probe w) = written [.opening "parent"] ++ (written (bare e.tokens) ++
      (closeTag "parent" ++ written (Xml.rowTokens (allFields.map (leaf · w)) ++
        [.closing "project"]))) := by
    simp [lower, probe, leaf, Xml.tokens, Xml.rowTokens, Entry.tokens, Entry.elementTokens, e,
      Token.chars, bare, Token.isComment]
  have hskip := @elementText?_written [.opening "parent"] "artifactId" (by decide)
    (List.forall_mem_singleton.2 (by decide)) (by decide)
  have hentry := elementText?_entry e .artifact
  rw [lower, remains_of_notMem hproper fun name hname =>
    ⟨(hnames name hname).1, opening_notMem (hnames name hname).2⟩, ← lower, htext, hskip]
  exact (hentry _).trans (by rw [if_pos rfl, Option.some_or])

end

/-- What can be read is in its place. -/
theorem own_of_reading {path : Path} {own inherited : Field → Option String} {w : String}
    (hw : w ≠ defaultPackaging) (h : reading path own inherited = .ok ⟨path, ⟨w, w, w⟩, w⟩) :
    own .artifact = some w ∧ own .packaging = some w ∧
      (own .group <|> inherited .group) = some w ∧
        (own .version <|> inherited .version) = some w := by
  rw [reading] at h
  split at h
  · cases h
  · cases h
  · cases h
  · next artifact group version hartifact hgroup hversion =>
    obtain ⟨-, ⟨rfl, rfl, rfl⟩, hpackaging⟩ := Pom.mk.inj (Except.ok.inj h)
    refine ⟨hartifact, ?_, hgroup, hversion⟩
    cases hown : own .packaging with
    | none => rw [hown] at hpackaging; exact absurd hpackaging.symm hw
    | some found => rw [hown] at hpackaging; exact congrArg some hpackaging

theorem elementText?_of_element? {name value : String} {cs : List Char}
    (h : element? name cs = some value) : elementText? name cs = some value.toList := by
  rw [element?] at h
  split at h
  · cases h
  · next found _ =>
    obtain ⟨text, htext, rfl⟩ := Option.map_eq_some_iff.1 h
    rw [String.toList_ofList, htext]

/-- The start of a project shows nothing. -/
theorem sections_shown (w : Value) :
    (sections (projectText (.element s content :: probe w)).toList).1 =
        (sections (sectionText s content ++ lower (probe w))).1 ∧
      ∀ field : Field, elementText? field.name
          (sections (projectText (.element s content :: probe w)).toList).2 =
        elementText? field.name (sections (sectionText s content ++ lower (probe w))).2 := by
  have hupper : (sections (upper [])).1 = none ∧
      ∀ name ∈ fieldNames, elementText? name (sections (upper [])).2 = none := by decide +kernel
  have hrow : IsRow (sectionText s content ++ lower (probe w)) :=
    isRow_sectionText.append (isRow_lower _)
  have htext := projectText_append [] (.element s content :: probe w)
  rw [List.nil_append, lower_cons, ← sectionText] at htext
  rw [htext, sections_append_of_none (isRow_upper []) hupper.1 hrow]
  refine ⟨rfl, fun field => ?_⟩
  rw [(isRow_upper []).sections.elementText?_append, hupper.2 _ field.name_mem_fieldNames,
    Option.none_or]

/-- There is a value that is not the one shown, and that no project has for another reason. -/
theorem exists_value (shown : Option (List Char)) : ∃ w : Value, shown ≠ some w.text.toList ∧
    w.text ≠ defaultPackaging ∧ w.text ≠ "parent" := by
  by_cases ha : shown = some "a".toList
  · exact ⟨⟨"b", by decide⟩, by rw [ha]; decide, by decide, by decide⟩
  · exact ⟨⟨"a", by decide⟩, ha, by decide, by decide⟩

section

variable {path : Path} (h : ∀ w, parse path (projectText (.element s content :: probe w)) =
  parse path (projectText (probe w)))

include h in
/-- With a section without influence on the projects with a probe, the artifact id and the packaging
are in their place, and the other fields are there or inherited. -/
theorem fields_of_probes {w : Value} (hw : w.text ≠ defaultPackaging) :
    let text := projectText (.element s content :: probe w)
    ownValue? text .artifact = some w.text ∧ ownValue? text .packaging = some w.text ∧
      (ownValue? text .group <|> parentValue? text .group) = some w.text ∧
        (ownValue? text .version <|> parentValue? text .version) = some w.text :=
  own_of_reading hw ((parse_eq path _).symm.trans ((h w).trans (parse_probe w path)))

include h in
/-- Such a section shows no parent block: that of the probe would stay, and its artifact id would be
read. -/
theorem sections_fst_of_probes : (sections (sectionText s content)).1 = none := by
  have hsection := @isRow_sectionText s content
  cases hinner : (sections (sectionText s content)).1 with
  | none => rfl
  | some inner =>
    obtain ⟨w, hshown, hjar, hother⟩ :=
      exists_value (elementText? "artifactId" (sections (sectionText s content)).2)
    have hartifact := elementText?_of_element? (fields_of_probes h hjar).1
    rw [(sections_shown w).2, sections_append_of_some hsection hinner (isRow_lower _),
      hsection.sections.elementText?_append, Field.name, artifact_probe] at hartifact
    cases hleak : elementText? "artifactId" (sections (sectionText s content)).2 with
    | none =>
      rw [hleak] at hartifact
      exact absurd (String.toList_inj.1 (Option.some.inj hartifact)).symm hother
    | some value =>
      rw [hleak] at hshown hartifact
      exact absurd hartifact hshown

include h in
/-- With such a section every field is in its place, since the parent block of the probe gives none
of those that can be inherited. -/
theorem ownValue?_of_probes {w : Value} (hw : w.text ≠ defaultPackaging) (field : Field) :
    ownValue? (projectText (.element s content :: probe w)) field = some w.text := by
  obtain ⟨hartifact, hpackaging, hgroup, hversion⟩ := fields_of_probes h hw
  have hsections := sections_append_of_none isRow_sectionText (sections_fst_of_probes h)
    (isRow_lower (probe w))
  have hinherited : ∀ field : Field, field.name ∈ ["groupId", "version"] →
      parentValue? (projectText (.element s content :: probe w)) field = none := by
    have hprobe : ∀ name ∈ ["groupId", "version"],
        (some "<artifactId>parent</artifactId>".toList).bind (element? name) = none := by
      decide +kernel
    intro field hname
    rw [parentValue?, (sections_shown w).1, hsections, sections_probe, hprobe _ hname]
  have hnone : ∀ value? : Option String, (value? <|> none) = value? := by
    intro value?
    cases value? <;> rfl
  rw [hinherited _ (by decide), hnone] at hgroup hversion
  cases field with
  | group => exact hgroup
  | artifact => exact hartifact
  | version => exact hversion
  | packaging => exact hpackaging

include h in
/-- A section without influence on the projects with a probe is sealed. -/
theorem sealed_of_probes : Sealed s content := by
  have hsection := @isRow_sectionText s content
  have hparent := sections_fst_of_probes h
  refine ⟨hparent, fun name hname => ?_⟩
  obtain ⟨field, rfl⟩ := exists_field hname
  cases hleak : elementText? field.name (sections (sectionText s content)).2 with
  | none => rfl
  | some value =>
    obtain ⟨w, hshown, hjar, -⟩ := exists_value (some value)
    have hread := elementText?_of_element? (ownValue?_of_probes h hjar field)
    rw [(sections_shown w).2, sections_append_of_none hsection hparent (isRow_lower (probe w)),
      hsection.sections.elementText?_append, hleak] at hread
    exact absurd hread hshown

end

/-! ### The result -/

/-- **Sealed sections have no influence, and no others.** A nested section of a project can be
exchanged for any sealed one, whatever stands before and behind it, exactly if it is sealed itself:
if it shows neither a parent block nor an element that is read. It does not if nothing in it has its
own name and there is no parent block in it. -/
theorem section_sealed_iff (s : TagName) (hs : s.text ∈ nestedSections) (content : List Xml) :
    (Sealed s content ↔ ∀ other, Sealed s other → ∀ path before after,
      parse path (projectText (before ++ .element s content :: after)) =
        parse path (projectText (before ++ .element s other :: after))) ∧
      ((∀ name ∈ tagNames (Xml.rowTokens content), name ≠ s.text ∧ name ≠ "parent") →
        Sealed s content) := by
  refine ⟨⟨fun h other hother path before after => ?_, fun h => ?_⟩, sealed_of_names hs⟩
  · rw [parse_sealed h, parse_sealed hother]
  · have hempty : Sealed s [] := sealed_of_names hs (by simp [Xml.rowTokens])
    refine @sealed_of_probes _ _ default fun w => ?_
    have hwith := h [] hempty default [] (probe w)
    rwa [parse_sealed hempty] at hwith

/-- The configuration of a plugin with a setting of some name and one for the packaging. -/
def pluginWith (name : TagName) : List Xml :=
  [.element ⟨"plugins", by decide⟩ [.element ⟨"plugin", by decide⟩
    [.element ⟨"configuration", by decide⟩
      [.element name [.text ⟨"fast".toList, by decide⟩],
        .element ⟨"packaging", by decide⟩ [.text ⟨"war".toList, by decide⟩]]]]]

/-- A build whose plugin has a setting named `mode` can be exchanged for an empty one, and a build
whose plugin has one named `build` cannot. -/
theorem section_sealed_iff_plugin : ("build" ∈ nestedSections ∧
    ∀ path before after,
      parse path (projectText (before ++
          .element ⟨"build", by decide⟩ (pluginWith ⟨"mode", by decide⟩) :: after)) =
        parse path (projectText (before ++ .element ⟨"build", by decide⟩ [] :: after))) ∧
    ¬ ∀ other, Sealed ⟨"build", by decide⟩ other → ∀ path before after,
      parse path (projectText (before ++
          .element ⟨"build", by decide⟩ (pluginWith ⟨"build", by decide⟩) :: after)) =
        parse path (projectText (before ++ .element ⟨"build", by decide⟩ other :: after)) := by
  have hs : "build" ∈ nestedSections := by decide
  refine ⟨⟨hs, ?_⟩, fun h => ?_⟩
  · have hiff := section_sealed_iff ⟨"build", by decide⟩ hs (pluginWith ⟨"mode", by decide⟩)
    exact hiff.1.1 (hiff.2 (by decide)) [] (by decide +kernel)
  · have hiff := section_sealed_iff ⟨"build", by decide⟩ hs (pluginWith ⟨"build", by decide⟩)
    exact absurd ((hiff.1.2 h).2 "packaging" (by decide)) (by decide +kernel)

/-- The project of the counterexample, with some content of its build section. -/
def builtWith (content : List Xml) : String :=
  projectText ([leaf .group ⟨"com.telenav", by decide⟩, leaf .artifact ⟨"core", by decide⟩] ++
    .element ⟨"build", by decide⟩ content :: [leaf .version ⟨"1.0.0", by decide⟩])

/-- A setting named `build` in a plugin's configuration ends the build section early, and the next
setting is read as the packaging of the project. -/
theorem section_shows :
    (parse (.ofString "core/pom.xml") (builtWith (pluginWith ⟨"build", by decide⟩))).toOption.map
        packaging = some "war" ∧
      (parse (.ofString "core/pom.xml") (builtWith [])).toOption.map packaging = some "jar" := by
  rw [builtWith, builtWith, parse_projectText, parse_projectText]
  decide +kernel

end Grove.Pom
