import Grove.Project.Pom

/-!
# Texts with tags

A project file seen as a row of tokens: tags that open and close elements, plain text and comments.
Since no token but a comment holds a bracket beside those of its own tag, a tag is found in the
written text just where it stands in the row, and what the reader of project files does to the text
can be told on the tokens.

Removing a block looks for the nearest closing tag, which need not be the one that belongs to the
opening tag. What remains can have closing tags too many, but never an opening tag too many: a row
in which every opening tag is followed by its closing tag (`Closed`) keeps this when a block is cut
out of it, wherever the block ends. So blocks never reach beyond such a row.

## What is proved

* `removeBlocks_comments` — comments are removed, whatever they say.
* `Closed.cut_out`, `Closed.exists_remains` — removing blocks keeps a row closed and stays inside
  it.
* `Closed.exists_takeBlock?`, `Closed.elementText?_append` — so do taking the first block and
  reading the first element.
-/

namespace Grove

namespace Text

/-- A name with its bracket does not start with another name and its bracket. -/
theorem dropStart?_of_ne {name name' : List Char} (hname : '>' ∉ name) (hname' : '>' ∉ name')
    (hne : name ≠ name') (value : List Char) :
    dropStart? (name ++ ['>']) (name' ++ '>' :: value) = none := by
  induction name generalizing name' with
  | nil =>
    cases name' with
    | nil => exact absurd rfl hne
    | cons c' name' =>
      rw [List.mem_cons, not_or] at hname'
      exact if_neg hname'.1
  | cons c name ih =>
    rw [List.mem_cons, not_or] at hname
    cases name' with
    | nil => exact if_neg (Ne.symm hname.1)
    | cons c' name' =>
      rw [List.mem_cons, not_or] at hname'
      rw [List.cons_append, List.cons_append, dropStart?]
      split
      · next hc => exact ih hname.2 hname'.2 fun heq => hne (by rw [hc, heq])
      · rfl

/-- The end of a comment is found where the comment ends: its first two characters are the same, so
no end starts in the text of the comment. -/
theorem cut_commentEnd {text : List Char} (h : holds "-->".toList text = false) (cs : List Char) :
    cut "-->".toList (text ++ ("-->".toList ++ cs)) = some (text, cs) := by
  induction text with
  | nil => exact cut_append_self (by decide) cs
  | cons c text ih =>
    have hcut : cut "-->".toList (c :: text) = none := by simpa [holds] using h
    rw [cut] at hcut
    split at hcut
    · cases hcut
    · next hdrop =>
      have htext : holds "-->".toList text = false := by
        rw [Option.map_eq_none_iff] at hcut
        rw [holds, hcut, Option.isSome_none]
      have hskip : dropStart? "-->".toList (c :: (text ++ ("-->".toList ++ cs))) = none := by
        -- only the first two characters of the text can matter
        rcases text with - | ⟨d, - | ⟨e, text⟩⟩
        · simp [dropStart?]
        · simp [dropStart?]
        · simpa [dropStart?] using hdrop
      rw [List.cons_append, cut, hskip, ih htext]
      rfl

end Text

open Text

namespace Pom

/-! ### Removing and reading -/

section

variable {opening closing cs before after : List Char}

theorem removeBlocks_of_cut (h : cut opening cs = none) (closing : List Char) :
    removeBlocks opening closing cs = cs := by
  rw [removeBlocks, h]

theorem removeBlocks_nil (hopening : opening ≠ []) : removeBlocks opening closing [] = [] :=
  removeBlocks_of_cut (by rw [cut, if_neg hopening]) _

theorem length_lt_of_cut (hopening : opening ≠ []) (h : cut opening cs = some (before, after)) :
    after.length < cs.length := by
  have hlength := congrArg List.length (append_of_cut h)
  have hpos := List.length_pos_iff.2 hopening
  simp only [List.length_append] at hlength
  omega

/-- A block is removed and the rest is looked through. -/
theorem removeBlocks_block {inner rest : List Char} (hopening : opening ≠ [])
    (hopen : cut opening cs = some (before, after)) (hclose : cut closing after = some (inner, rest)) :
    removeBlocks opening closing cs = before ++ removeBlocks opening closing rest := by
  have hlt : rest.length < cs.length :=
    Nat.lt_of_le_of_lt (length_after_cut hclose) (length_lt_of_cut hopening hopen)
  rw [removeBlocks, hopen]
  simp only [hclose]
  rw [dif_pos hlt]

/-- Text in which no block starts stays before what the blocks are removed from. -/
theorem removeBlocks_append {text : List Char} (hopening : opening ≠ [])
    (hskip : cut opening (text ++ cs) =
      (cut opening cs).map fun (before, after) => (text ++ before, after)) :
    removeBlocks opening closing (text ++ cs) = text ++ removeBlocks opening closing cs := by
  cases hopen : cut opening cs with
  | none =>
    rw [hopen, Option.map_none] at hskip
    rw [removeBlocks_of_cut hskip, removeBlocks_of_cut hopen]
  | some found =>
    obtain ⟨before, after⟩ := found
    rw [hopen, Option.map_some] at hskip
    cases hclose : cut closing after with
    | none =>
      rw [removeBlocks, hskip, removeBlocks, hopen]
      simp only [hclose]
    | some found =>
      rw [removeBlocks_block hopening hskip hclose, removeBlocks_block hopening hopen hclose,
        List.append_assoc]

end

section

variable {name : String} {cs : List Char}

theorem openTag_ne_nil (name : String) : openTag name ≠ [] :=
  List.cons_ne_nil _ _

theorem elementText?_of_cut (h : cut (openTag name) cs = none) : elementText? name cs = none := by
  rw [elementText?, h]

/-- Text in which no element of the name starts does not change what is read. -/
theorem elementText?_skip {text : List Char}
    (hskip : cut (openTag name) (text ++ cs) =
      (cut (openTag name) cs).map fun (before, after) => (text ++ before, after)) :
    elementText? name (text ++ cs) = elementText? name cs := by
  have hopening := openTag_ne_nil name
  cases hopen : cut (openTag name) cs with
  | none =>
    rw [hopen, Option.map_none] at hskip
    rw [elementText?_of_cut hskip, elementText?_of_cut hopen]
  | some found =>
    obtain ⟨before, after⟩ := found
    rw [hopen, Option.map_some] at hskip
    rw [elementText?, hskip, elementText?, hopen]
    simp only [dif_pos (length_lt_of_cut hopening hskip),
      dif_pos (length_lt_of_cut hopening hopen)]

/-- An element is read if only text stands before its closing tag. -/
theorem elementText?_openTag (name : String) (cs : List Char) :
    elementText? name (openTag name ++ cs) =
      match dropStart? (closeTag name) (cs.dropWhile (· != '<')) with
      | some _ => some (strip (cs.takeWhile (· != '<')))
      | none => elementText? name cs := by
  have hcut : cut (openTag name) (openTag name ++ cs) = some ([], cs) :=
    cut_append_self (openTag_ne_nil name) cs
  rw [elementText?, hcut]
  dsimp only
  cases dropStart? (closeTag name) (cs.dropWhile (· != '<')) with
  | none => exact dif_pos (length_lt_of_cut (openTag_ne_nil name) hcut)
  | some _ => rfl

end

end Pom

open Pom

namespace Markup

/-! ### Tokens -/

/-- What a text with tags is made of. -/
inductive Token where
  /-- The tag that opens an element. -/
  | opening (name : String)
  /-- The tag that closes an element. -/
  | closing (name : String)
  /-- Text between tags. -/
  | plain (text : List Char)
  /-- A comment. -/
  | comment (text : List Char)
  deriving DecidableEq

/-- Whether a text can stand in a tag: it neither ends the tag nor makes it another kind of mark. -/
def isTagName (name : String) : Bool :=
  '<' ∉ name.toList && '>' ∉ name.toList && name.toList.head? ∉ [some '/', some '!']

namespace Token

/-- The token as it is written. -/
def chars : Token → List Char
  | opening name => openTag name
  | closing name => closeTag name
  | plain text => text
  | comment text => "<!--".toList ++ (text ++ "-->".toList)

@[simp] theorem chars_opening (name : String) : (opening name).chars = openTag name := rfl

@[simp] theorem chars_closing (name : String) : (closing name).chars = closeTag name := rfl

/-- Whether the token is a comment. -/
def isComment : Token → Bool
  | comment _ => true
  | _ => false

/-- Whether the token stands for itself in a text: a tag of a name, or text without brackets. -/
def isProper : Token → Bool
  | opening name => isTagName name
  | closing name => isTagName name
  | plain text => '<' ∉ text
  | comment _ => false

/-- Whether the token is a comment that ends at its end. -/
def isClosedComment : Token → Bool
  | comment text => !holds "-->".toList text
  | _ => false

/-- What stands between the brackets of a tag. -/
def label? : Token → Option (List Char)
  | opening name => some name.toList
  | closing name => some ('/' :: name.toList)
  | _ => none

variable {t k : Token} {label : List Char}

theorem chars_of_label (h : t.label? = some label) : t.chars = '<' :: (label ++ ['>']) := by
  cases t with
  | opening name => rw [← Option.some.inj h]; rfl
  | closing name => rw [← Option.some.inj h]; rfl
  | plain text => cases h
  | comment text => cases h

theorem label_of_isProper (ht : t.isProper = true) (h : t.label? = some label) :
    '<' ∉ label ∧ '>' ∉ label ∧ label.head? ≠ some '!' := by
  cases t with
  | opening name =>
    obtain rfl := Option.some.inj h
    simp only [isProper, isTagName, Bool.and_eq_true, decide_eq_true_eq, List.mem_cons, not_or] at ht
    exact ⟨ht.1.1, ht.1.2, ht.2.2.1⟩
  | closing name =>
    obtain rfl := Option.some.inj h
    simp only [isProper, isTagName, Bool.and_eq_true, decide_eq_true_eq] at ht
    simp [ht.1.1, ht.1.2]
  | plain text => cases h
  | comment text => cases h

/-- Tags with the same inside are the same: no name makes an opening tag a closing one. -/
theorem eq_of_label (hk : k.isProper = true) (ht : t.isProper = true)
    (hlabel : k.label? = some label) (h : t.label? = some label) : t = k := by
  have hslash : ∀ {name : String} {rest : List Char}, isTagName name = true →
      some name.toList ≠ some ('/' :: rest) := by
    intro name rest hname heq
    simp [isTagName, Option.some.inj heq] at hname
  cases k with
  | opening name =>
    cases t with
    | opening name' => rw [String.toList_inj.1 (Option.some.inj (h.trans hlabel.symm))]
    | closing name' => exact absurd (hlabel.trans h.symm) (hslash hk)
    | _ => cases h
  | closing name =>
    cases t with
    | opening name' => exact absurd (h.trans hlabel.symm) (hslash ht)
    | closing name' =>
      rw [String.toList_inj.1 (List.cons.inj (Option.some.inj (h.trans hlabel.symm))).2]
    | _ => cases h
  | _ => cases hlabel

/-- What starts with a bracket is looked for behind a token, if it does not stand where the token
has its own bracket. -/
theorem cut_behind {mark : List Char} (ht : t.isProper = true) {cs : List Char}
    (hmark : ∀ label, t.label? = some label → dropStart? mark (label ++ '>' :: cs) = none) :
    cut ('<' :: mark) (t.chars ++ cs) =
      (cut ('<' :: mark) cs).map fun (before, after) => (t.chars ++ before, after) := by
  cases hlabel : t.label? with
  | none =>
    cases t with
    | plain text => exact cut_of_notMem (of_decide_eq_true ht) cs
    | comment text => cases ht
    | opening name => cases hlabel
    | closing name => cases hlabel
  | some label =>
    have hbody : '<' ∉ label ++ ['>'] := by simp [(label_of_isProper ht hlabel).1]
    have happend : label ++ '>' :: cs = label ++ ['>'] ++ cs := by simp
    rw [chars_of_label hlabel, List.cons_append, List.append_assoc, List.singleton_append, cut,
      dropStart?, if_pos rfl, hmark label hlabel, happend]
    simp only [cut_of_notMem hbody, Option.map_map]
    rfl

/-- The inside of a tag does not start with the inside of another one. -/
theorem dropStart?_of_label {other : List Char} (hk : k.isProper = true)
    (hlabel : k.label? = some label) (ht : t.isProper = true) (hother : t.label? = some other)
    (hne : t ≠ k) (cs : List Char) : dropStart? (label ++ ['>']) (other ++ '>' :: cs) = none := by
  refine dropStart?_of_ne (label_of_isProper hk hlabel).2.1 (label_of_isProper ht hother).2.1 ?_ cs
  rintro rfl
  exact hne (eq_of_label hk ht hlabel hother)

/-- A tag is looked for behind any other token. -/
theorem cut_chars (hk : k.isProper = true) (hlabel : k.label? = some label)
    (ht : t.isProper = true) (hne : t ≠ k) (cs : List Char) :
    cut k.chars (t.chars ++ cs) =
      (cut k.chars cs).map fun (before, after) => (t.chars ++ before, after) := by
  rw [chars_of_label hlabel]
  exact cut_behind ht fun other hother => dropStart?_of_label hk hlabel ht hother hne cs

/-- The start of a comment is looked for behind any other token. -/
theorem cut_commentStart (ht : t.isProper = true) (cs : List Char) :
    cut "<!--".toList (t.chars ++ cs) =
      (cut "<!--".toList cs).map fun (before, after) => (t.chars ++ before, after) := by
  refine cut_behind ht fun label hlabel => ?_
  have hmark := (label_of_isProper ht hlabel).2.2
  cases label with
  | nil => rfl
  | cons c label => exact if_neg fun h => hmark (by rw [← h]; rfl)

end Token

open Token

/-- The text of a row of tokens. -/
def written (ts : List Token) : List Char :=
  ts.flatMap Token.chars

@[simp] theorem written_nil : written [] = [] := rfl

@[simp] theorem written_cons (t : Token) (ts : List Token) :
    written (t :: ts) = t.chars ++ written ts := rfl

@[simp] theorem written_append (ts us : List Token) :
    written (ts ++ us) = written ts ++ written us :=
  List.flatMap_append

/-- All tokens stand for themselves. -/
def Proper (ts : List Token) : Prop :=
  ∀ t ∈ ts, t.isProper = true

theorem Proper.append {ts us : List Token} (hts : Proper ts) (hus : Proper us) :
    Proper (ts ++ us) :=
  List.forall_mem_append.2 ⟨hts, hus⟩

theorem Proper.sublist {ts us : List Token} (h : Proper ts) (hsub : us.Sublist ts) : Proper us :=
  fun t ht => h t (hsub.subset ht)

/-- A tag that is not in a row is looked for behind it. -/
theorem cut_written {k : Token} {label : List Char} (hk : k.isProper = true)
    (hlabel : k.label? = some label) {ts : List Token} (hts : Proper ts) (hmem : k ∉ ts)
    (cs : List Char) :
    cut k.chars (written ts ++ cs) =
      (cut k.chars cs).map fun (before, after) => (written ts ++ before, after) := by
  induction ts with
  | nil => simp
  | cons t ts ih =>
    obtain ⟨ht, hts⟩ := List.forall_mem_cons.1 hts
    rw [List.mem_cons, not_or] at hmem
    rw [written_cons, List.append_assoc, cut_chars hk hlabel ht (Ne.symm hmem.1), ih hts hmem.2,
      Option.map_map]
    simp [Function.comp_def]

/-- A tag is found at its first place in a row. -/
theorem cut_written_at {k : Token} {label : List Char} (hk : k.isProper = true)
    (hlabel : k.label? = some label) {ts : List Token} (hts : Proper ts) (hmem : k ∉ ts)
    (cs : List Char) :
    cut k.chars (written ts ++ (k.chars ++ cs)) = some (written ts, cs) := by
  have hself : cut k.chars (k.chars ++ cs) = some ([], cs) :=
    cut_append_self (by rw [chars_of_label hlabel]; exact List.cons_ne_nil _ _) cs
  rw [cut_written hk hlabel hts hmem, hself]
  simp

/-- Comments are removed, whatever they say. -/
theorem removeBlocks_comments {ts : List Token}
    (h : ∀ t ∈ ts, t.isProper = true ∨ t.isClosedComment = true) :
    removeBlocks "<!--".toList "-->".toList (written ts) =
      written (ts.filter fun t => !t.isComment) := by
  induction ts with
  | nil => exact removeBlocks_nil (by decide)
  | cons t ts ih =>
    obtain ⟨ht, hts⟩ := List.forall_mem_cons.1 h
    rcases ht with ht | ht
    · have hkept : t.isComment = false := by
        cases t with
        | comment text => cases ht
        | _ => rfl
      rw [written_cons, removeBlocks_append (by decide) (cut_commentStart ht _), ih hts,
        List.filter_cons_of_pos (by simp [hkept]), written_cons]
    · cases t with
      | comment text =>
        have hopen : cut "<!--".toList (written (comment text :: ts)) =
            some ([], text ++ ("-->".toList ++ written ts)) := by
          have hself := @cut_append_self "<!--".toList (by decide)
            (text ++ ("-->".toList ++ written ts))
          rw [← hself]
          simp [chars]
        have hclose := cut_commentEnd (by simpa [isClosedComment] using ht) (written ts)
        rw [removeBlocks_block (by decide) hopen hclose, ih hts]
        rfl
      | _ => cases ht

/-! ### Rows in which every opening tag is closed -/

/-- Every opening tag of one of the names has its closing tag behind it, one inside the other.
There may be more closing tags than that. -/
inductive Closed (names : List String) : List Token → Prop
  /-- An empty row. -/
  | nil : Closed names []
  /-- Any token but an opening tag of one of the names. -/
  | other {t : Token} {ts : List Token} (ht : ∀ name ∈ names, t ≠ opening name) :
      Closed names ts → Closed names (t :: ts)
  /-- An element. -/
  | element {name : String} {inner rest : List Token} :
      Closed names inner → Closed names rest →
        Closed names (opening name :: (inner ++ closing name :: rest))

section

variable {α : Type} {a b c d : List α} {x y : α}

/-- The first places of an element are the same place. -/
theorem append_cons_inj (ha : x ∉ a) (hc : x ∉ c) (h : a ++ x :: b = c ++ x :: d) :
    a = c ∧ b = d := by
  rcases List.append_eq_append_iff.1 h with ⟨as, rfl, has⟩ | ⟨bs, rfl, hbs⟩
  · rcases List.append_eq_cons_iff.1 has.symm with ⟨rfl, htail⟩ | ⟨l, rfl, -⟩
    · exact ⟨(List.append_nil _).symm, (List.cons.inj htail).2.symm⟩
    · simp at hc
  · rcases List.append_eq_cons_iff.1 hbs.symm with ⟨rfl, htail⟩ | ⟨l, rfl, -⟩
    · exact ⟨List.append_nil _, (List.cons.inj htail).2⟩
    · simp at ha

/-- Of places of two elements one comes first. -/
theorem append_cons_eq (hne : x ≠ y) (h : a ++ x :: b = c ++ y :: d) :
    (∃ l, a = c ++ y :: l ∧ d = l ++ x :: b) ∨ ∃ l, c = a ++ x :: l ∧ b = l ++ y :: d := by
  rcases List.append_eq_append_iff.1 h with ⟨as, rfl, has⟩ | ⟨bs, rfl, hbs⟩
  · rcases List.append_eq_cons_iff.1 has.symm with ⟨-, hclash⟩ | ⟨l, rfl, hl⟩
    · exact absurd (List.cons.inj hclash).1.symm hne
    · exact .inr ⟨l, rfl, hl⟩
  · rcases List.append_eq_cons_iff.1 hbs.symm with ⟨-, hclash⟩ | ⟨l, rfl, hl⟩
    · exact absurd (List.cons.inj hclash).1 hne
    · exact .inl ⟨l, rfl, hl⟩

end

namespace Closed

variable {names : List String} {ts us : List Token} {name : String}

theorem append (hts : Closed names ts) (hus : Closed names us) : Closed names (ts ++ us) := by
  induction hts with
  | nil => exact hus
  | other ht _ ih => exact .other ht ih
  | element hinner _ _ ih =>
    rw [List.cons_append, List.append_assoc, List.cons_append]
    exact .element hinner ih

theorem cons_closing (name : String) (h : Closed names ts) : Closed names (.closing name :: ts) :=
  .other (fun _ _ => Token.noConfusion) h

/-- What comes behind any point of a closed row is closed. -/
theorem of_append (h : Closed names (ts ++ us)) : Closed names us := by
  generalize hrow : ts ++ us = row at h
  induction h generalizing ts us with
  | nil =>
    obtain ⟨-, rfl⟩ := List.append_eq_nil_iff.1 hrow
    exact .nil
  | other ht hrest ih =>
    rcases List.append_eq_cons_iff.1 hrow with ⟨-, rfl⟩ | ⟨ts', -, hrow'⟩
    · exact .other ht hrest
    · exact ih hrow'.symm
  | @element name inner rest hinner hrest ihinner ihrest =>
    rcases List.append_eq_cons_iff.1 hrow with ⟨-, rfl⟩ | ⟨ts', -, hrow'⟩
    · exact .element hinner hrest
    · rcases List.append_eq_append_iff.1 hrow' with ⟨as, -, has⟩ | ⟨bs, hbs, rfl⟩
      · rcases List.append_eq_cons_iff.1 has.symm with ⟨-, rfl⟩ | ⟨as', -, has'⟩
        · exact hrest.cons_closing name
        · exact ihrest has'.symm
      · exact (ihinner hbs.symm).append (hrest.cons_closing name)

/-- An opening tag in a closed row has a closing tag behind it. -/
theorem mem_closing (hname : name ∈ names) (h : Closed names (ts ++ opening name :: us)) :
    Token.closing name ∈ us := by
  cases h.of_append with
  | other ht _ => exact absurd rfl (ht name hname)
  | element => simp

/-- A closed row stays closed without a block, wherever the block ends. -/
theorem cut_out {before inner after : List Token} (hname : name ∈ names)
    (hinner : Token.closing name ∉ inner)
    (h : Closed names (before ++ opening name :: (inner ++ Token.closing name :: after))) :
    Closed names (before ++ after) := by
  generalize hrow : before ++ opening name :: (inner ++ Token.closing name :: after) = row at h
  induction h generalizing before after with
  | nil => simp at hrow
  | @other t ts ht hrest ih =>
    rcases List.append_eq_cons_iff.1 hrow with ⟨-, hrow'⟩ | ⟨before', rfl, hrow'⟩
    · exact absurd (List.cons.inj hrow').1.symm (ht name hname)
    · exact .other ht (ih hrow'.symm)
  | @element other inside rest hinside hrest ihinside ihrest =>
    rcases List.append_eq_cons_iff.1 hrow with ⟨rfl, hrow'⟩ | ⟨before', rfl, hrow'⟩
    · -- the block starts here, so what remains is the end of a closed row
      have hwhole : Closed names ((inner ++ [Token.closing name]) ++ after) := by
        rw [List.append_assoc, List.singleton_append, (List.cons.inj hrow').2]
        exact hinside.append (hrest.cons_closing other)
      exact hwhole.of_append
    · rcases append_cons_eq Token.noConfusion hrow'.symm with ⟨as, rfl, rfl⟩ | ⟨bs, rfl, hbs⟩
      · -- the block starts behind the element
        simpa using Closed.element hinside (ihrest rfl)
      · -- the block starts inside the element, and ends there
        obtain ⟨inner', after', rfl, hinner'⟩ :=
          List.eq_append_cons_of_mem (hinside.mem_closing hname)
        rw [List.append_assoc, List.cons_append] at hbs
        obtain ⟨rfl, rfl⟩ := append_cons_inj hinner hinner' hbs
        simpa using Closed.element (ihinside rfl) hrest

/-- An opening tag in a closed row starts a block of the row. -/
theorem exists_block (hname : name ∈ names) (h : Closed names ts) (hts : Proper ts)
    (hmem : opening name ∈ ts) :
    ∃ before inner after, ts = before ++ opening name :: (inner ++ Token.closing name :: after) ∧
      (Proper before ∧ opening name ∉ before) ∧ (Proper inner ∧ Token.closing name ∉ inner) ∧
        (before ++ after).Sublist ts ∧ Closed names (before ++ after) := by
  obtain ⟨before, tail, rfl, hbefore⟩ := List.eq_append_cons_of_mem hmem
  obtain ⟨inner, after, rfl, hinner⟩ := List.eq_append_cons_of_mem (h.mem_closing hname)
  obtain ⟨hproper, htail⟩ := List.forall_mem_append.1 hts
  obtain ⟨hproper', -⟩ := List.forall_mem_append.1 (List.forall_mem_cons.1 htail).2
  exact ⟨before, inner, after, rfl, ⟨hproper, hbefore⟩, ⟨hproper', hinner⟩,
    .append (.refl _) (.cons _ (List.sublist_append_of_sublist_right (.cons _ (.refl _)))),
    h.cut_out hname hinner⟩

end Closed

/-! ### Reading a closed row -/

section

variable {names : List String} {ts : List Token} {name : String}

/-- Blocks that start in a closed row end in it, and without them it is still closed. -/
theorem Closed.exists_removeBlocks {ts : List Token} (hname : name ∈ names)
    (htag : isTagName name = true) (h : Closed names ts) (hts : Proper ts) :
    ∃ us, us.Sublist ts ∧ Closed names us ∧ ∀ cs,
      removeBlocks (openTag name) (closeTag name) (written ts ++ cs) =
        written us ++ removeBlocks (openTag name) (closeTag name) cs := by
  have hopening := openTag_ne_nil name
  have hskip : ∀ {before : List Token}, Proper before → opening name ∉ before → ∀ cs,
      removeBlocks (openTag name) (closeTag name) (written before ++ cs) =
        written before ++ removeBlocks (openTag name) (closeTag name) cs :=
    fun hbefore hmem cs =>
      removeBlocks_append hopening (cut_written (k := opening name) htag rfl hbefore hmem cs)
  induction hlength : ts.length using Nat.strongRecOn generalizing ts with | _ n ih
  by_cases hmem : opening name ∈ ts
  · obtain ⟨before, inner, after, rfl, ⟨hbefore, hfirst⟩, ⟨hinner, hend⟩, hsub, hclosed⟩ :=
      h.exists_block hname hts hmem
    have hlt : (before ++ after).length < n := by
      rw [← hlength]
      simp only [List.length_append, List.length_cons]
      omega
    obtain ⟨us, hus, hus', hremove⟩ := ih _ hlt hclosed (hts.sublist hsub) rfl
    refine ⟨us, hus.trans hsub, hus', fun cs => ?_⟩
    have hopen : cut (openTag name)
        (written (before ++ opening name :: (inner ++ closing name :: after)) ++ cs) =
          some (written before, written (inner ++ closing name :: after) ++ cs) := by
      simpa using cut_written_at (k := opening name) htag rfl hbefore hfirst
        (written (inner ++ closing name :: after) ++ cs)
    have hclose : cut (closeTag name) (written (inner ++ closing name :: after) ++ cs) =
        some (written inner, written after ++ cs) := by
      simpa using cut_written_at (k := closing name) htag rfl hinner hend (written after ++ cs)
    rw [removeBlocks_block hopening hopen hclose, ← hremove, written_append, List.append_assoc,
      hskip hbefore hfirst]
  · exact ⟨ts, .refl _, h, hskip hts hmem⟩

/-- The first block is taken from a row. -/
theorem takeBlock?_written (htag : isTagName name = true) {before inner : List Token}
    (hbefore : Proper before) (hopen : opening name ∉ before) (hinner : Proper inner)
    (hclose : closing name ∉ inner) (cs : List Char) :
    takeBlock? (openTag name) (closeTag name)
        (written before ++ (openTag name ++ (written inner ++ (closeTag name ++ cs)))) =
      some (written inner, written before ++ cs) := by
  have hstart := cut_written_at (k := opening name) htag rfl hbefore hopen
    (written inner ++ (closeTag name ++ cs))
  have hend := cut_written_at (k := closing name) htag rfl hinner hclose cs
  simp only [chars_opening, chars_closing] at hstart hend
  simp [takeBlock?, hstart, hend]

/-- A block that starts in a closed row is taken from it, and without it the row is closed. -/
theorem Closed.exists_takeBlock? (hname : name ∈ names) (htag : isTagName name = true)
    (h : Closed names ts) (hts : Proper ts) (hmem : opening name ∈ ts) :
    ∃ inner us, us.Sublist ts ∧ Closed names us ∧ ∀ cs,
      takeBlock? (openTag name) (closeTag name) (written ts ++ cs) =
        some (inner, written us ++ cs) := by
  obtain ⟨before, inner, after, rfl, ⟨hbefore, hfirst⟩, ⟨hinner, hend⟩, hsub, hclosed⟩ :=
    h.exists_block hname hts hmem
  refine ⟨written inner, before ++ after, hsub, hclosed, fun cs => ?_⟩
  simpa using takeBlock?_written htag hbefore hfirst hinner hend (written after ++ cs)

/-- Where no block starts, one is taken from what follows. -/
theorem takeBlock?_skip (htag : isTagName name = true) (hts : Proper ts)
    (hmem : opening name ∉ ts) (cs : List Char) :
    takeBlock? (openTag name) (closeTag name) (written ts ++ cs) =
      (takeBlock? (openTag name) (closeTag name) cs).map
        fun (inner, rest) => (inner, written ts ++ rest) := by
  have hskip := cut_written (k := opening name) htag rfl hts hmem cs
  simp only [chars] at hskip
  rw [takeBlock?, hskip, takeBlock?]
  cases hopen : cut (openTag name) cs with
  | none => rfl
  | some found =>
    cases hclose : cut (closeTag name) found.2 <;> simp [hclose]

/-- Where no element of the name starts, one is read from what follows. -/
theorem elementText?_written (htag : isTagName name = true) (hts : Proper ts)
    (hmem : opening name ∉ ts) (cs : List Char) :
    elementText? name (written ts ++ cs) = elementText? name cs :=
  elementText?_skip (cut_written (k := opening name) htag rfl hts hmem cs)

theorem elementText?_nil (name : String) : elementText? name [] = none :=
  elementText?_of_cut rfl

/-- Behind the text at the start of a row that holds a tag comes the first tag. -/
theorem exists_first_tag (hts : Proper ts) (hmem : closing name ∈ ts) :
    ∃ (text : List Char) (k : Token) (label : List Char) (rest : List Token), '<' ∉ text ∧
      k.isProper = true ∧ k.label? = some label ∧
        ∀ cs, written ts ++ cs = text ++ (k.chars ++ (written rest ++ cs)) := by
  induction ts with
  | nil => simp at hmem
  | cons t ts ih =>
    obtain ⟨ht, hts⟩ := List.forall_mem_cons.1 hts
    cases hlabel : t.label? with
    | some label => exact ⟨[], t, label, ts, by simp, ht, hlabel, by simp⟩
    | none =>
      have hrest : closing name ∈ ts := by
        rcases List.mem_cons.1 hmem with rfl | hmem
        · cases hlabel
        · exact hmem
      obtain ⟨text, k, label, rest, htext, hk, hklabel, hwritten⟩ := ih hts hrest
      cases t with
      | plain body =>
        refine ⟨body ++ text, k, label, rest, ?_, hk, hklabel, fun cs => ?_⟩
        · simpa [htext] using of_decide_eq_true ht
        · simp [chars, hwritten cs]
      | comment body => cases ht
      | opening name => cases hlabel
      | closing name => cases hlabel

/-- Text ends where a tag starts. -/
theorem span_tag {text : List Char} (htext : '<' ∉ text) {k : Token} {label : List Char}
    (hlabel : k.label? = some label) (cs : List Char) :
    (text ++ (k.chars ++ cs)).dropWhile (· != '<') = k.chars ++ cs ∧
      (text ++ (k.chars ++ cs)).takeWhile (· != '<') = text := by
  have hplain : ∀ c ∈ text, (c != '<') = true := fun c hc => bne_iff_ne.2 fun h => htext (h ▸ hc)
  rw [List.dropWhile_append_of_pos hplain, List.takeWhile_append_of_pos hplain,
    chars_of_label hlabel]
  simp

theorem dropStart?_closeTag (htag : isTagName name = true) {k : Token} {label : List Char}
    (hk : k.isProper = true) (hlabel : k.label? = some label) (hne : k ≠ closing name)
    (cs : List Char) : dropStart? (closeTag name) (k.chars ++ cs) = none := by
  have hdrop := @dropStart?_of_label k (closing name) _ label htag rfl hk hlabel hne cs
  have hrow : k.chars ++ cs = '<' :: (label ++ '>' :: cs) := by simp [chars_of_label hlabel]
  rw [hrow]
  exact (if_pos rfl).trans hdrop

/-- An element is read from a closed row if there is one to be read, else from what follows. -/
theorem Closed.elementText?_append {ts : List Token} (hname : name ∈ names)
    (htag : isTagName name = true) (h : Closed names ts) (hts : Proper ts) (cs : List Char) :
    elementText? name (written ts ++ cs) =
      (elementText? name (written ts)).or (elementText? name cs) := by
  induction hlength : ts.length using Nat.strongRecOn generalizing ts with | _ n ih
  by_cases hmem : opening name ∈ ts
  · obtain ⟨before, tail, rfl, hbefore⟩ := List.eq_append_cons_of_mem hmem
    have hlt : tail.length < n := by
      rw [← hlength]
      simp only [List.length_append, List.length_cons]
      omega
    have hproper := List.forall_mem_append.1 hts
    have htail := (List.forall_mem_cons.1 hproper.2).2
    have hrow : Closed names ([opening name] ++ tail) := h.of_append
    have hclosed : Closed names tail := hrow.of_append
    obtain ⟨text, k, label, rest, htext, hk, hlabel, hwritten⟩ :=
      exists_first_tag htail (h.mem_closing hname)
    have hfirst : ∀ cs, elementText? name (written (before ++ opening name :: tail) ++ cs) =
        if k = closing name then some (strip text) else elementText? name (written tail ++ cs) := by
      intro cs
      have hrow : written (before ++ opening name :: tail) ++ cs =
          written before ++ (openTag name ++ (written tail ++ cs)) := by simp [chars]
      rw [hrow, elementText?_written htag hproper.1 hbefore, elementText?_openTag]
      obtain ⟨hdrop, htake⟩ := span_tag htext hlabel (written rest ++ cs)
      rw [hwritten cs, hdrop, htake]
      by_cases hclosing : k = closing name
      · subst hclosing
        rw [if_pos rfl, chars, dropStart?_append]
      · rw [if_neg hclosing, dropStart?_closeTag htag hk hlabel hclosing]
    have hnil := hfirst []
    rw [List.append_nil, List.append_nil] at hnil
    rw [hfirst, hnil]
    split
    · rfl
    · exact ih _ hlt hclosed htail rfl
  · have hnone : elementText? name (written ts) = none := by
      simpa [elementText?_nil] using elementText?_written htag hts hmem []
    rw [elementText?_written htag hts hmem, hnone, Option.none_or]

end

/-! ### Removing the blocks of several names -/

/-- What remains of a text without the blocks of some names, removed one name after the other. -/
def remains (names : List String) (cs : List Char) : List Char :=
  names.foldl (fun cs name => removeBlocks (openTag name) (closeTag name) cs) cs

theorem remains_cons (name : String) (names : List String) (cs : List Char) :
    remains (name :: names) cs =
      remains names (removeBlocks (openTag name) (closeTag name) cs) := rfl

theorem remains_append (names names' : List String) (cs : List Char) :
    remains (names ++ names') cs = remains names' (remains names cs) :=
  List.foldl_append ..

theorem remains_nil (names : List String) : remains names [] = [] := by
  induction names with
  | nil => rfl
  | cons name names ih => rw [remains_cons, removeBlocks_nil (openTag_ne_nil name), ih]

/-- A row in which no block starts stays before what the blocks are removed from. -/
theorem remains_written {names : List String} {ts : List Token} (hts : Proper ts)
    (hnames : ∀ name ∈ names, isTagName name = true ∧ opening name ∉ ts) (cs : List Char) :
    remains names (written ts ++ cs) = written ts ++ remains names cs := by
  induction names generalizing cs with
  | nil => rfl
  | cons name names ih =>
    obtain ⟨⟨htag, hmem⟩, hnames⟩ := List.forall_mem_cons.1 hnames
    rw [remains_cons, removeBlocks_append (openTag_ne_nil name)
      (cut_written (k := opening name) htag rfl hts hmem cs), ih hnames, ← remains_cons]

theorem remains_of_notMem {names : List String} {ts : List Token} (hts : Proper ts)
    (hnames : ∀ name ∈ names, isTagName name = true ∧ opening name ∉ ts) :
    remains names (written ts) = written ts := by
  simpa [remains_nil] using remains_written hts hnames []

/-- The blocks of several names, too, are removed inside a closed row. -/
theorem Closed.exists_remains {all names : List String} {ts : List Token}
    (hnames : ∀ name ∈ names, name ∈ all ∧ isTagName name = true) (h : Closed all ts)
    (hts : Proper ts) :
    ∃ us, us.Sublist ts ∧ Closed all us ∧ ∀ cs,
      remains names (written ts ++ cs) = written us ++ remains names cs := by
  induction names generalizing ts with
  | nil => exact ⟨ts, .refl _, h, fun _ => rfl⟩
  | cons name names ih =>
    obtain ⟨⟨hname, htag⟩, hnames⟩ := List.forall_mem_cons.1 hnames
    obtain ⟨us, hsub, hclosed, hremove⟩ := h.exists_removeBlocks hname htag hts
    obtain ⟨vs, hsub', hclosed', hremains⟩ := ih hnames hclosed (hts.sublist hsub)
    refine ⟨vs, hsub'.trans hsub, hclosed', fun cs => ?_⟩
    rw [remains_cons, hremove, hremains, ← remains_cons]

section

variable {cs plain : List Char} (hplain : removeBlocks "<!--".toList "-->".toList cs = plain)

include hplain

/-- The parent block is set aside, and the nested sections are removed from the rest. -/
theorem sections_of_block {inner rest : List Char}
    (h : takeBlock? (openTag "parent") (closeTag "parent") plain = some (inner, rest)) :
    sections cs = (some inner, remains nestedSections rest) := by
  simp only [sections, hplain, h, remains]

theorem sections_of_none
    (h : takeBlock? (openTag "parent") (closeTag "parent") plain = none) :
    sections cs = (none, remains nestedSections plain) := by
  simp only [sections, hplain, h, remains]

end

end Markup

end Grove
