import Grove.Proofs.Markup

/-!
# Project files put together

The text of a project file from what it says: elements for coordinates and for the packaging, each
with blanks around its value, a parent block with elements of its own, and between all these any
blanks and comments, in any order. Reading the text gives back what was put in.

An element may be given more than once; the first one counts, as it does for the reader.

## What is proved

* `elementText?_entries` — of a row of elements the first of a name is read.
* `sections_tokens` — the parent block is set aside with what it holds, and all else stays.
* `parse_sheet` — what reading a project file gives, and when it fails.
-/

namespace Grove.Pom

open Text Markup

/-! ### The parts of a project file -/

/-- Whether a text can be the value of an element, as it is. -/
def isElementText (s : String) : Bool :=
  s ≠ "" && '<' ∉ s.toList && strip s.toList = s.toList

/-- A text that is the value of an element as it is. -/
structure Value where
  /-- The text. -/
  text : String
  /-- It is not empty, holds no bracket and has no blanks at its ends. -/
  valid : isElementText text = true := by decide

theorem Value.bracket_notMem (v : Value) : '<' ∉ v.text.toList := by
  have hvalid := v.valid
  simp only [isElementText, Bool.and_eq_true, decide_eq_true_eq] at hvalid
  exact hvalid.1.2

theorem Value.strip_eq (v : Value) : strip v.text.toList = v.text.toList := by
  have hvalid := v.valid
  simp only [isElementText, Bool.and_eq_true, decide_eq_true_eq] at hvalid
  exact hvalid.2

/-- Some blanks. -/
structure Blanks where
  /-- The characters. -/
  chars : List Char
  /-- Each is a blank. -/
  valid : chars.all isBlank = true := by decide

/-- Whether a token may stand between elements: blanks, or a comment. -/
def isFilling : Token → Bool
  | .plain text => text.all isBlank
  | t => t.isClosedComment

/-- Blanks and comments. -/
structure Filling where
  /-- The blanks and comments in order. -/
  tokens : List Token
  /-- There is nothing else. -/
  valid : tokens.all isFilling = true := by decide

/-- What elements are read for. -/
inductive Field where
  /-- The group id. -/
  | group
  /-- The artifact id. -/
  | artifact
  /-- The version. -/
  | version
  /-- The packaging. -/
  | packaging
  deriving DecidableEq

/-- The name of the element. -/
def Field.name : Field → String
  | group => "groupId"
  | artifact => "artifactId"
  | version => "version"
  | packaging => "packaging"

/-- The names of the elements that are read. -/
def fieldNames : List String :=
  ["groupId", "artifactId", "version", "packaging"]

/-- An element that gives a field a value. -/
structure Entry where
  /-- What stands before the element. -/
  before : Filling := ⟨[], rfl⟩
  /-- The field. -/
  field : Field
  /-- The blanks before the value. -/
  left : Blanks := ⟨[], rfl⟩
  /-- The value. -/
  value : Value
  /-- The blanks behind the value. -/
  right : Blanks := ⟨[], rfl⟩

/-- The block that names the parent. -/
structure ParentBlock where
  /-- What stands before the block. -/
  before : Filling := ⟨[], rfl⟩
  /-- The elements of the block. -/
  entries : List Entry
  /-- What stands behind the last of them. -/
  after : Filling := ⟨[], rfl⟩

/-- A project file in its parts. -/
structure Sheet where
  /-- What stands before the project. -/
  head : Filling := ⟨[], rfl⟩
  /-- The elements above the parent block. -/
  above : List Entry
  /-- The parent block, if there is one. -/
  parent? : Option ParentBlock
  /-- The elements below the parent block. -/
  below : List Entry
  /-- What stands behind the last of them. -/
  foot : Filling := ⟨[], rfl⟩
  /-- What stands behind the project. -/
  tail : Filling := ⟨[], rfl⟩

/-- The value that some elements give a field first. -/
def given? (field : Field) (entries : List Entry) : Option String :=
  entries.findSome? fun e => if e.field = field then some e.value.text else none

theorem given?_cons (field : Field) (e : Entry) (es : List Entry) :
    given? field (e :: es) = if e.field = field then some e.value.text else given? field es := by
  rw [given?, List.findSome?_cons]
  by_cases hfield : e.field = field <;> simp [hfield, given?]

theorem given?_append (field : Field) (es es' : List Entry) :
    given? field (es ++ es') = (given? field es).or (given? field es') :=
  List.findSome?_append ..

namespace Sheet

/-- The value that the project gives a field itself. -/
def own? (s : Sheet) (field : Field) : Option String :=
  given? field (s.above ++ s.below)

/-- The value that the parent block gives a field. -/
def inherited? (s : Sheet) (field : Field) : Option String :=
  s.parent?.bind fun p => given? field p.entries

end Sheet

/-! ### Writing -/

/-- The tokens of an element without what stands before it. -/
def Entry.elementTokens (e : Entry) : List Token :=
  [.opening e.field.name, .plain (e.left.chars ++ (e.value.text.toList ++ e.right.chars)),
    .closing e.field.name]

/-- The tokens of an element. -/
def Entry.tokens (e : Entry) : List Token :=
  e.before.tokens ++ e.elementTokens

/-- The tokens of a parent block. -/
def ParentBlock.tokens (p : ParentBlock) : List Token :=
  p.before.tokens ++ .opening "parent" ::
    (p.entries.flatMap Entry.tokens ++ p.after.tokens ++ [.closing "parent"])

/-- The tokens of a project file. -/
def Sheet.tokens (s : Sheet) : List Token :=
  s.head.tokens ++ .opening "project" :: (s.above.flatMap Entry.tokens ++
    ((s.parent?.elim [] ParentBlock.tokens) ++ (s.below.flatMap Entry.tokens ++
      (s.foot.tokens ++ .closing "project" :: s.tail.tokens))))

/-- The text of a project file. -/
def Sheet.text (s : Sheet) : String :=
  String.ofList (written s.tokens)

/-! ### Without comments -/

/-- The tokens that are no comments. -/
def bare (ts : List Token) : List Token :=
  ts.filter fun t => !t.isComment

@[simp] theorem bare_append (ts us : List Token) : bare (ts ++ us) = bare ts ++ bare us :=
  List.filter_append ..

@[simp] theorem bare_flatMap {α : Type} (xs : List α) (f : α → List Token) :
    bare (xs.flatMap f) = xs.flatMap fun x => bare (f x) :=
  List.filter_flatMap ..

@[simp] theorem bare_opening (name : String) (ts : List Token) :
    bare (.opening name :: ts) = .opening name :: bare ts := rfl

@[simp] theorem bare_closing (name : String) (ts : List Token) :
    bare (.closing name :: ts) = .closing name :: bare ts := rfl

@[simp] theorem bare_nil : bare [] = [] := rfl

/-- The names in the tags of a row. -/
def tagNames (ts : List Token) : List String :=
  ts.filterMap fun
    | .opening name => some name
    | .closing name => some name
    | _ => none

@[simp] theorem tagNames_append (ts us : List Token) :
    tagNames (ts ++ us) = tagNames ts ++ tagNames us :=
  List.filterMap_append ..

@[simp] theorem tagNames_opening (name : String) (ts : List Token) :
    tagNames (.opening name :: ts) = name :: tagNames ts := rfl

@[simp] theorem tagNames_closing (name : String) (ts : List Token) :
    tagNames (.closing name :: ts) = name :: tagNames ts := rfl

@[simp] theorem tagNames_nil : tagNames [] = [] := rfl

@[simp] theorem tagNames_flatMap {α : Type} (xs : List α) (f : α → List Token) :
    tagNames (xs.flatMap f) = xs.flatMap fun x => tagNames (f x) :=
  List.filterMap_flatMap ..

theorem opening_notMem {name : String} {ts : List Token} (h : name ∉ tagNames ts) :
    Token.opening name ∉ ts :=
  fun hmem => h (List.mem_filterMap.2 ⟨_, hmem, rfl⟩)

theorem closing_notMem {name : String} {ts : List Token} (h : name ∉ tagNames ts) :
    Token.closing name ∉ ts :=
  fun hmem => h (List.mem_filterMap.2 ⟨_, hmem, rfl⟩)

/-- Whether a token may stand in a project file. -/
def isAllowed (t : Token) : Bool :=
  t.isProper || t.isClosedComment

theorem isAllowed_of_isFilling {t : Token} (h : isFilling t = true) : isAllowed t = true := by
  cases t with
  | plain text =>
    have hbracket : '<' ∉ text := fun hmem =>
      absurd (List.all_eq_true.1 h _ hmem) (by decide)
    simp [isAllowed, Token.isProper, hbracket]
  | comment text => exact h
  | opening name => cases h
  | closing name => cases h

theorem Filling.isAllowed (f : Filling) : f.tokens.all isAllowed = true :=
  List.all_eq_true.2 fun t ht => isAllowed_of_isFilling (List.all_eq_true.1 f.valid t ht)

@[simp] theorem Filling.tagNames (f : Filling) : tagNames (bare f.tokens) = [] := by
  refine List.filterMap_eq_nil_iff.2 fun t ht => ?_
  have hfilling := List.all_eq_true.1 f.valid t (List.mem_filter.1 ht).1
  cases t with
  | opening name => cases hfilling
  | closing name => cases hfilling
  | _ => rfl

theorem Field.isTagName (f : Field) : isTagName f.name = true := by
  cases f <;> decide

theorem Entry.isAllowed (e : Entry) : e.tokens.all isAllowed = true := by
  have hblank : ∀ b : Blanks, '<' ∉ b.chars := fun b hmem =>
    absurd (List.all_eq_true.1 b.valid _ hmem) (by decide)
  simp [Entry.tokens, elementTokens, e.before.isAllowed, Pom.isAllowed, Token.isProper,
    e.field.isTagName, hblank, e.value.bracket_notMem]

@[simp] theorem Entry.tagNames (e : Entry) :
    tagNames (bare e.tokens) = [e.field.name, e.field.name] := by
  have hbare : bare e.elementTokens = e.elementTokens := rfl
  rw [Entry.tokens, bare_append, tagNames_append, e.before.tagNames, hbare]
  rfl

theorem Sheet.isAllowed (s : Sheet) : s.tokens.all isAllowed = true := by
  have htags : Pom.isAllowed (.opening "project") = true ∧ Pom.isAllowed (.closing "project") = true ∧
      Pom.isAllowed (.opening "parent") = true ∧ Pom.isAllowed (.closing "parent") = true := by
    decide
  have hparent : (s.parent?.elim [] ParentBlock.tokens).all Pom.isAllowed = true := by
    cases s.parent? with
    | none => rfl
    | some p =>
      simp [ParentBlock.tokens, p.before.isAllowed, p.after.isAllowed, Entry.isAllowed, htags]
  simp [Sheet.tokens, Filling.isAllowed, Entry.isAllowed, htags, hparent]

theorem proper_bare {ts : List Token} (h : ts.all isAllowed = true) : Proper (bare ts) := by
  intro t ht
  obtain ⟨hmem, hcomment⟩ := List.mem_filter.1 ht
  have hallowed := List.all_eq_true.1 h t hmem
  cases t with
  | comment text => cases hcomment
  | _ => simpa [isAllowed, Token.isClosedComment] using hallowed

/-! ### Reading -/

theorem strip_value (e : Entry) :
    strip (e.left.chars ++ (e.value.text.toList ++ e.right.chars)) = e.value.text.toList :=
  stripBoth_append e.left.valid e.right.valid e.value.strip_eq

/-- An element is read for its own field and passed over for the others. -/
theorem elementText?_entry (e : Entry) (field : Field) (cs : List Char) :
    elementText? field.name (written (bare e.tokens) ++ cs) =
      (if e.field = field then some e.value.text.toList else none).or
        (elementText? field.name cs) := by
  have hproper : Proper (bare e.tokens) := proper_bare e.isAllowed
  by_cases hfield : e.field = field
  · subst hfield
    have hbefore : Proper (bare e.before.tokens) := proper_bare e.before.isAllowed
    have hmem : Token.opening e.field.name ∉ bare e.before.tokens :=
      opening_notMem (by simp)
    have hrow : written (bare e.tokens) ++ cs = written (bare e.before.tokens) ++
        (openTag e.field.name ++ (e.left.chars ++ (e.value.text.toList ++ e.right.chars) ++
          ((Token.closing e.field.name).chars ++ cs))) := by
      simp [Entry.tokens, Entry.elementTokens, bare, Token.isComment, Token.chars]
    have hplain : '<' ∉ e.left.chars ++ (e.value.text.toList ++ e.right.chars) := by
      have hopen : Token.plain (e.left.chars ++ (e.value.text.toList ++ e.right.chars)) ∈
          bare e.tokens := by
        simp [Entry.tokens, Entry.elementTokens, bare, Token.isComment]
      exact of_decide_eq_true (hproper _ hopen)
    obtain ⟨hdrop, htake⟩ := span_tag hplain (k := .closing e.field.name) rfl cs
    rw [hrow, elementText?_written e.field.isTagName hbefore hmem, elementText?_openTag, hdrop,
      htake, Token.chars_closing, dropStart?_append, strip_value, if_pos rfl, Option.some_or]
  · have hname : field.name ∉ tagNames (bare e.tokens) := by
      have hnames : ∀ f g : Field, f ≠ g → g.name ≠ f.name := by
        intro f g
        cases f <;> cases g <;> decide
      simp [hnames _ _ hfield]
    rw [elementText?_written field.isTagName hproper (opening_notMem hname), if_neg hfield,
      Option.none_or]

/-- Of a row of elements the first of a name is read. -/
theorem elementText?_entries (es : List Entry) (field : Field) (cs : List Char) :
    elementText? field.name (written (bare (es.flatMap Entry.tokens)) ++ cs) =
      ((given? field es).map String.toList).or (elementText? field.name cs) := by
  induction es with
  | nil => simp [given?]
  | cons e es ih =>
    rw [List.flatMap_cons, bare_append, written_append, List.append_assoc, elementText?_entry, ih,
      given?_cons]
    by_cases hfield : e.field = field <;> simp [hfield]

/-- A row whose tags have other names is passed over. -/
theorem elementText?_others {ts : List Token} (hts : Proper ts) {field : Field}
    (hnames : ∀ name ∈ tagNames ts, name ∈ ["project", "parent"]) (cs : List Char) :
    elementText? field.name (written ts ++ cs) = elementText? field.name cs := by
  refine elementText?_written field.isTagName hts (opening_notMem fun hmem => ?_) cs
  have hname := hnames _ hmem
  cases field <;> revert hname <;> decide

/-- What a parent block holds, without comments. -/
def ParentBlock.inner (p : ParentBlock) : List Token :=
  bare (p.entries.flatMap Entry.tokens) ++ bare p.after.tokens

namespace Sheet

variable (s : Sheet)

/-- What stands above the parent block, without comments. -/
def start : List Token :=
  bare s.head.tokens ++ .opening "project" :: bare (s.above.flatMap Entry.tokens)

/-- What stands below the parent block, without comments. -/
def rest : List Token :=
  bare (s.below.flatMap Entry.tokens) ++
    (bare s.foot.tokens ++ .closing "project" :: bare s.tail.tokens)

/-- What remains without comments and the parent block. -/
def body : List Token :=
  s.start ++ ((s.parent?.elim [] fun p => bare p.before.tokens) ++ s.rest)

theorem bare_tokens : bare s.tokens =
    s.start ++ ((s.parent?.elim [] fun p => bare p.tokens) ++ s.rest) := by
  cases hparent : s.parent? <;>
    simp only [Sheet.tokens, start, rest, hparent, Option.elim, bare_append, bare_opening,
      bare_closing, bare_nil, List.cons_append, List.append_assoc]

theorem bare_parent (p : ParentBlock) : bare p.tokens =
    bare p.before.tokens ++ .opening "parent" :: (p.inner ++ [.closing "parent"]) := by
  simp [ParentBlock.tokens, ParentBlock.inner]

/-- A row of elements has only tags of fields. -/
theorem tagNames_entries (es : List Entry) :
    ∀ name ∈ tagNames (bare (es.flatMap Entry.tokens)), name ∈ fieldNames := by
  have hfield : ∀ f : Field, f.name ∈ fieldNames := by
    intro f
    cases f <;> decide
  intro name hname
  simp only [bare_flatMap, tagNames_flatMap, Entry.tagNames, List.mem_flatMap] at hname
  obtain ⟨e, -, he⟩ := hname
  simp only [List.mem_cons, List.not_mem_nil, or_false, or_self] at he
  exact he ▸ hfield e.field

theorem tagNames_inner (p : ParentBlock) : ∀ name ∈ tagNames p.inner, name ∈ fieldNames := by
  simpa [ParentBlock.inner] using tagNames_entries p.entries

theorem tagNames_start : ∀ name ∈ tagNames s.start, name ∈ "project" :: fieldNames := by
  have hentries := tagNames_entries s.above
  intro name hname
  simp only [start, tagNames_append, tagNames_opening, Filling.tagNames, List.nil_append,
    List.mem_cons] at hname ⊢
  exact hname.imp_right (hentries name)

theorem tagNames_rest : ∀ name ∈ tagNames s.rest, name ∈ "project" :: fieldNames := by
  have hentries := tagNames_entries s.below
  intro name hname
  simp only [rest, tagNames_append, tagNames_closing, Filling.tagNames, List.nil_append,
    List.mem_append, List.mem_cons, List.not_mem_nil, or_false] at hname ⊢
  exact hname.symm.imp_right (hentries name)

theorem tagNames_body : ∀ name ∈ tagNames s.body, name ∈ "project" :: fieldNames := by
  have hbefore : tagNames (s.parent?.elim [] fun p => bare p.before.tokens) = [] := by
    cases s.parent? <;> simp
  simp only [body, tagNames_append, hbefore, List.nil_append]
  exact List.forall_mem_append.2 ⟨s.tagNames_start, s.tagNames_rest⟩

theorem proper_body : Proper s.body ∧
    ∀ p, s.parent? = some p → Proper (s.start ++ bare p.before.tokens) ∧ Proper p.inner := by
  have hall := proper_bare s.isAllowed
  rw [bare_tokens] at hall
  obtain ⟨hstart, htail⟩ := List.forall_mem_append.1 hall
  obtain ⟨hparent, hrest⟩ := List.forall_mem_append.1 htail
  have hbefore : Proper (s.parent?.elim [] fun p => bare p.before.tokens) := by
    cases s.parent? with
    | none => exact List.forall_mem_nil _
    | some p => exact proper_bare p.before.isAllowed
  refine ⟨Proper.append hstart (.append hbefore hrest), fun p hp => ?_⟩
  rw [hp, Option.elim] at hbefore
  rw [hp, Option.elim, bare_parent] at hparent
  obtain ⟨-, hblock⟩ := List.forall_mem_append.1 hparent
  obtain ⟨hinner, -⟩ := List.forall_mem_append.1 (List.forall_mem_cons.1 hblock).2
  exact ⟨Proper.append hstart hbefore, hinner⟩

/-- The parent block is set aside with what it holds, and all else stays but the comments. -/
theorem sections_tokens :
    sections (written s.tokens) = (s.parent?.map fun p => written p.inner, written s.body) := by
  obtain ⟨hbody, hparent⟩ := s.proper_body
  have hplain : removeBlocks "<!--".toList "-->".toList (written s.tokens) =
      written (bare s.tokens) :=
    removeBlocks_comments fun t ht => by
      simpa [Pom.isAllowed] using List.all_eq_true.1 s.isAllowed t ht
  have hnames : ∀ n ∈ "parent" :: nestedSections,
      Markup.isTagName n = true ∧ n ∉ "project" :: fieldNames := by decide
  have hopen : ∀ n ∈ "parent" :: nestedSections,
      Markup.isTagName n = true ∧ Token.opening n ∉ s.body := fun n hn =>
    ⟨(hnames n hn).1, opening_notMem fun hmem => (hnames n hn).2 (s.tagNames_body n hmem)⟩
  obtain ⟨⟨htag, hstart⟩, hnested⟩ := List.forall_mem_cons.1 hopen
  have hremains := remains_of_notMem hbody hnested
  cases hp : s.parent? with
  | none =>
    have hall : bare s.tokens = s.body := by rw [bare_tokens, body, hp]; rfl
    have hblock : takeBlock? (openTag "parent") (closeTag "parent") (written s.body) = none := by
      have hskip := takeBlock?_skip htag hbody hstart []
      rw [List.append_nil] at hskip
      exact hskip
    rw [hall] at hplain
    rw [sections_of_none hplain hblock, hremains]
    rfl
  | some p =>
    obtain ⟨hbefore, hinner⟩ := hparent p hp
    have hall : written (bare s.tokens) = written (s.start ++ bare p.before.tokens) ++
        (openTag "parent" ++ (written p.inner ++ (closeTag "parent" ++ written s.rest))) := by
      simp [bare_tokens, hp, bare_parent]
    have hstart' : Token.opening "parent" ∉ s.start ++ bare p.before.tokens := fun hmem =>
      hstart (by
        rw [body, hp, ← List.append_assoc]
        exact List.mem_append_left _ hmem)
    have hclose : Token.closing "parent" ∉ p.inner := closing_notMem fun hmem =>
      absurd (tagNames_inner p _ hmem) (by decide)
    have hbody' : written (s.start ++ bare p.before.tokens) ++ written s.rest = written s.body := by
      simp [body, hp]
    have hblock := takeBlock?_written htag hbefore hstart' hinner hclose (written s.rest)
    rw [hbody'] at hblock
    rw [hall] at hplain
    rw [sections_of_block hplain hblock, hremains]
    rfl

/-- What remains of the text has the elements of the project. -/
theorem elementText?_body (field : Field) :
    elementText? field.name (written s.body) = (s.own? field).map String.toList := by
  have hothers : ∀ {ts : List Token}, ts.all Pom.isAllowed = true →
      (∀ name ∈ tagNames (bare ts), name ∈ ["project", "parent"]) → ∀ cs,
      elementText? field.name (written (bare ts) ++ cs) = elementText? field.name cs :=
    fun hts hnames cs => elementText?_others (proper_bare hts) hnames cs
  have hhead := @hothers (s.head.tokens ++ [.opening "project"])
    (by simp [Filling.isAllowed, Pom.isAllowed, Token.isProper, Markup.isTagName]) (by simp)
  have hbefore : ∀ cs, elementText? field.name
      (written (s.parent?.elim [] fun p => bare p.before.tokens) ++ cs) =
        elementText? field.name cs := by
    cases s.parent? with
    | none => exact fun _ => rfl
    | some p => exact hothers p.before.isAllowed (by simp)
  have hfoot := @hothers (s.foot.tokens ++ .closing "project" :: s.tail.tokens)
    (by simp [Filling.isAllowed, Pom.isAllowed, Token.isProper, Markup.isTagName]) (by simp) []
  have hrow : written s.body = written (bare (s.head.tokens ++ [.opening "project"])) ++
      (written (bare (s.above.flatMap Entry.tokens)) ++
        (written (s.parent?.elim [] fun p => bare p.before.tokens) ++
          (written (bare (s.below.flatMap Entry.tokens)) ++
            (written (bare (s.foot.tokens ++ .closing "project" :: s.tail.tokens)) ++ [])))) := by
    simp [body, start, rest]
  rw [hrow, hhead, elementText?_entries, hbefore, elementText?_entries, hfoot, elementText?_nil,
    Option.or_none, own?, given?_append]
  cases given? field s.above <;> rfl

theorem elementText?_inner (p : ParentBlock) (field : Field) :
    elementText? field.name (written p.inner) = (given? field p.entries).map String.toList := by
  have hafter := @elementText?_others _ (proper_bare p.after.isAllowed) field (by simp) []
  rw [List.append_nil] at hafter
  rw [ParentBlock.inner, written_append, elementText?_entries, hafter, elementText?_nil,
    Option.or_none]

end Sheet

/-! ### The result -/

/-- What is made of the values that a project gives its fields and of those that it inherits. -/
def reading (path : Path) (own inherited : Field → Option String) : Except ProjectError Pom :=
  match own .artifact, own .group <|> inherited .group, own .version <|> inherited .version with
  | none, _, _ => .error (.unreadable path.shown "no artifactId")
  | some _, none, _ => .error (.unreadable path.shown "no groupId and no parent groupId")
  | some _, some _, none => .error (.unreadable path.shown "no version and no parent version")
  | some artifact, some group, some version =>
    .ok ⟨path, ⟨group, artifact, version⟩, (own .packaging).getD defaultPackaging⟩

/-- Reading a project file looks at the values of the fields only. -/
theorem parse_eq_reading (path : Path) {xml : String} {own inherited : Field → Option String}
    (hown : ∀ field : Field, element? field.name (sections xml.toList).2 = own field)
    (hinherited : ∀ field : Field,
      (sections xml.toList).1.bind (element? field.name) = inherited field) :
    parse path xml = reading path own inherited := by
  have hartifact := hown .artifact
  have hgroup := hown .group
  have hversion := hown .version
  have hpackaging := hown .packaging
  have hgroup' := hinherited .group
  have hversion' := hinherited .version
  simp only [Field.name] at hartifact hgroup hversion hpackaging hgroup' hversion'
  rw [parse]
  simp only [hartifact, hgroup, hversion, hpackaging, hgroup', hversion', reading]
  cases own .artifact <;> cases own .group <|> inherited .group <;>
    cases own .version <|> inherited .version <;> rfl

/-- A value that is read is the value of the element, if it is not empty. -/
theorem element?_eq {name : String} {cs : List Char} {value? : Option String}
    (h : elementText? name cs = value?.map String.toList) (hne : value? ≠ some "") :
    element? name cs = value? := by
  cases value? with
  | none => simp [element?, h]
  | some value =>
    have hvalue : value.toList ≠ [] := fun hnil =>
      hne (by rw [String.toList_eq_nil_iff.1 hnil])
    obtain ⟨c, cs', hcons⟩ := List.exists_cons_of_ne_nil hvalue
    rw [element?, h, Option.map_some, hcons]
    simp [← hcons]

theorem given?_ne_empty (field : Field) (es : List Entry) : given? field es ≠ some "" := by
  induction es with
  | nil => simp [given?]
  | cons e es ih =>
    rw [given?_cons]
    split
    · intro h
      have hvalid := e.value.valid
      rw [Option.some.inj h] at hvalid
      cases hvalid
    · exact ih

/-- Reading the text of a project file gives the values that were put in. -/
theorem Sheet.parse_text (path : Path) (s : Sheet) :
    parse path s.text = reading path s.own? s.inherited? := by
  have hsections : sections s.text.toList =
      (s.parent?.map fun p => written p.inner, written s.body) := by
    rw [Sheet.text, String.toList_ofList, s.sections_tokens]
  refine parse_eq_reading path (fun field => ?_) fun field => ?_
  · rw [hsections]
    exact element?_eq (s.elementText?_body field) (given?_ne_empty field _)
  · rw [hsections, inherited?]
    cases s.parent? with
    | none => rfl
    | some p => exact element?_eq (elementText?_inner p field) (given?_ne_empty field _)

/-- **Reading undoes writing.** A project file put together from elements, a parent block, blanks
and comments is read as the project with its own artifact id, with its own group id and version or
else those of the parent block, and with its own packaging or else the default one. It cannot be
read exactly when the artifact id is missing, or the group id or the version is missing in the
project and in the parent block. -/
theorem parse_sheet (path : Path) (s : Sheet) :
    (∀ pom, parse path s.text = .ok pom ↔ ∃ group artifact version,
      (s.own? .group <|> s.inherited? .group) = some group ∧ s.own? .artifact = some artifact ∧
        (s.own? .version <|> s.inherited? .version) = some version ∧
        pom = ⟨path, ⟨group, artifact, version⟩, (s.own? .packaging).getD "jar"⟩) ∧
      ((∃ e, parse path s.text = .error e) ↔ s.own? .artifact = none ∨
        (s.own? .group = none ∧ s.inherited? .group = none) ∨
        (s.own? .version = none ∧ s.inherited? .version = none)) := by
  have hnone : ∀ own inherited : Option String,
      (own = none ∧ inherited = none) ↔ (own <|> inherited) = none := by
    intro own inherited
    cases own <;> simp
  rw [s.parse_text, hnone, hnone, reading, defaultPackaging]
  cases s.own? .artifact <;> cases s.own? .group <|> s.inherited? .group <;>
    cases s.own? .version <|> s.inherited? .version <;> simp [eq_comm]

-- a comment between the elements, and a version that is only the parent's
example :
    let sheet : Sheet :=
      { above := [{ field := .artifact, value := { text := "core" } }]
        parent? := some { entries := [{ field := .version, value := { text := "1.0" } }] }
        below := [{ before := { tokens := [.comment "<version>2.0</version>".toList] }
                    field := .group, left := { chars := [' '] }, value := { text := "org" } }] }
    sheet.text = "<project><artifactId>core</artifactId><parent><version>1.0</version></parent>" ++
        "<!--<version>2.0</version>--><groupId> org</groupId></project>" ∧
      sheet.own? .version = none ∧ sheet.inherited? .version = some "1.0" := by
  decide +kernel

end Grove.Pom
