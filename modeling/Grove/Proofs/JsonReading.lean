import Grove.Text.Json

/-!
# JSON text read back

A reader of JSON text for values made of texts, natural numbers, lists and objects. It works in two
steps: characters are gathered to lexemes, one character at a time, and the lexemes are put together
to values, one lexeme at a time, with the lists and objects that are still open on a stack.

Both ways of writing a value give the same lexemes, so they denote the same value, and it is the
value that was written.

## What is proved

* `lex_compact`, `lex_indented` — the lexemes of a written value, on one line and indented.
* `run_lexemes` — the lexemes of a value are put together to that value.
* `read?_render` — reading undoes writing, indented or not.
-/

namespace Grove.Json

/-! ### Lexemes -/

/-- A piece of JSON text. -/
inductive Lexeme where
  /-- The start of a list. -/
  | listStart
  /-- The end of a list. -/
  | listEnd
  /-- The start of an object. -/
  | objectStart
  /-- The end of an object. -/
  | objectEnd
  /-- A comma. -/
  | comma
  /-- A colon. -/
  | colon
  /-- A text, without quotes. -/
  | text (s : String)
  /-- A number. -/
  | number (n : Nat)
  deriving DecidableEq

/-- What has been begun in a text. -/
inductive Mode where
  /-- Nothing. -/
  | between
  /-- A number. -/
  | digits (n : Nat)
  /-- A quoted text. -/
  | quote (done : List Char)
  /-- An escape in a quoted text. -/
  | escape (done : List Char)
  /-- The code of a character in a quoted text, with digits left behind the next one. -/
  | code (done : List Char) (left : Nat) (value : Nat)
  deriving DecidableEq

/-- What a lexeme of one character stands for. -/
def mark? (c : Char) : Option Lexeme :=
  if c = '[' then some .listStart
  else if c = ']' then some .listEnd
  else if c = '\x7b' then some .objectStart
  else if c = '\x7d' then some .objectEnd
  else if c = ',' then some .comma
  else if c = ':' then some .colon
  else none

/-- What the character behind a backslash stands for. -/
def escaped? (c : Char) : Option Char :=
  if c = '"' ∨ c = '\\' ∨ c = '/' then some c
  else if c = 'n' then some '\n'
  else if c = 'r' then some '\r'
  else if c = 't' then some '\t'
  else if c = 'b' then some '\x08'
  else if c = 'f' then some '\x0c'
  else none

/-- What a digit stands for in base sixteen. -/
def hexValue? (c : Char) : Option Nat :=
  if c.isDigit then some (c.toNat - '0'.toNat)
  else if 'a' ≤ c ∧ c ≤ 'f' then some (c.toNat - 'a'.toNat + 10)
  else if 'A' ≤ c ∧ c ≤ 'F' then some (c.toNat - 'A'.toNat + 10)
  else none

/-- Whether the character may stand between lexemes. -/
def isSpace (c : Char) : Bool :=
  c = ' ' || c = '\n' || c = '\r' || c = '\t'

/-- A character that stands behind a whole lexeme. -/
def start (c : Char) : Option (List Lexeme × Mode) :=
  if isSpace c then some ([], .between)
  else if c = '"' then some ([], .quote [])
  else if c.isDigit then some ([], .digits (c.toNat - '0'.toNat))
  else (mark? c).map fun l => ([l], .between)

/-- One more character: the lexemes that it completes and what has been begun behind it. -/
def next : Mode → Char → Option (List Lexeme × Mode)
  | .between, c => start c
  | .digits n, c =>
    if c.isDigit then
      -- no number but zero starts with zero
      if n = 0 then none else some ([], .digits (10 * n + (c.toNat - '0'.toNat)))
    else (start c).map fun (ls, mode) => (.number n :: ls, mode)
  | .quote done, c =>
    if c = '"' then some ([.text (String.ofList done)], .between)
    else if c = '\\' then some ([], .escape done)
    else if c < ' ' then none
    else some ([], .quote (done ++ [c]))
  | .escape done, c =>
    if c = 'u' then some ([], .code done 3 0)
    else (escaped? c).map fun d => ([], .quote (done ++ [d]))
  | .code done left value, c =>
    (hexValue? c).bind fun d =>
      match left with
      | left + 1 => some ([], .code done left (16 * value + d))
      | 0 =>
        if (16 * value + d).isValidChar then
          some ([], .quote (done ++ [Char.ofNat (16 * value + d)]))
        else none

/-- What the end of the text completes. -/
def finish : Mode → Option (List Lexeme)
  | .between => some []
  | .digits n => some [.number n]
  | _ => none

/-- Lexemes before others. -/
def emit (ls : List Lexeme) (more? : Option (List Lexeme)) : Option (List Lexeme) :=
  more?.map (ls ++ ·)

/-- The lexemes of a text. -/
def lex : Mode → List Char → Option (List Lexeme)
  | mode, [] => finish mode
  | mode, c :: cs => (next mode c).bind fun (ls, mode) => emit ls (lex mode cs)

/-! ### Values -/

/-- What is open around the place reached. -/
inductive Frame where
  /-- A list with its items so far. -/
  | list (items : List Json)
  /-- An object with its fields so far and the name of the next one. -/
  | object (fields : List (String × Json)) (name : String)

/-- How far the reading has come. -/
inductive State where
  /-- A value is due. -/
  | due (outer : List Frame)
  /-- A list has been opened. -/
  | listOpened (outer : List Frame)
  /-- An object has been opened. -/
  | objectOpened (outer : List Frame)
  /-- The name of a field is due. -/
  | nameDue (fields : List (String × Json)) (outer : List Frame)
  /-- The colon behind the name of a field is due. -/
  | colonDue (fields : List (String × Json)) (name : String) (outer : List Frame)
  /-- A value is complete. -/
  | complete (value : Json) (outer : List Frame)

/-- A lexeme where a value is due. -/
def begin? (outer : List Frame) : Lexeme → Option State
  | .text s => some (.complete (.text s) outer)
  | .number n => some (.complete (.number n) outer)
  | .listStart => some (.listOpened outer)
  | .objectStart => some (.objectOpened outer)
  | _ => none

/-- One more lexeme. -/
def State.step : State → Lexeme → Option State
  | .due outer, l => begin? outer l
  | .listOpened outer, .listEnd => some (.complete (.list []) outer)
  | .listOpened outer, l => begin? (.list [] :: outer) l
  | .objectOpened outer, .objectEnd => some (.complete (.object []) outer)
  | .objectOpened outer, .text name => some (.colonDue [] name outer)
  | .nameDue fields outer, .text name => some (.colonDue fields name outer)
  | .colonDue fields name outer, .colon => some (.due (.object fields name :: outer))
  | .complete v (.list items :: outer), .comma => some (.due (.list (items ++ [v]) :: outer))
  | .complete v (.list items :: outer), .listEnd => some (.complete (.list (items ++ [v])) outer)
  | .complete v (.object fields name :: outer), .comma =>
    some (.nameDue (fields ++ [(name, v)]) outer)
  | .complete v (.object fields name :: outer), .objectEnd =>
    some (.complete (.object (fields ++ [(name, v)])) outer)
  | _, _ => none

/-- Some more lexemes. -/
def State.run (s : State) (ls : List Lexeme) : Option State :=
  ls.foldlM State.step s

/-- The value of a text. -/
def read? (text : String) : Option Json :=
  match (lex .between text.toList).bind (State.run (.due [])) with
  | some (.complete v []) => some v
  | _ => none

/-! ### The lexemes of a value -/

mutual

/-- The lexemes of a value. -/
def lexemes : Json → List Lexeme
  | text s => [.text s]
  | number n => [.number n]
  | list items => .listStart :: (itemLexemes items ++ [.listEnd])
  | object fields => .objectStart :: (fieldLexemes fields ++ [.objectEnd])

/-- The lexemes of the items of a list. -/
def itemLexemes : List Json → List Lexeme
  | [] => []
  | item :: rest => lexemes item ++ moreItemLexemes rest

/-- The lexemes of the items after the first. -/
def moreItemLexemes : List Json → List Lexeme
  | [] => []
  | item :: rest => .comma :: (lexemes item ++ moreItemLexemes rest)

/-- The lexemes of the fields of an object. -/
def fieldLexemes : List (String × Json) → List Lexeme
  | [] => []
  | (name, value) :: rest => .text name :: .colon :: (lexemes value ++ moreFieldLexemes rest)

/-- The lexemes of the fields after the first. -/
def moreFieldLexemes : List (String × Json) → List Lexeme
  | [] => []
  | (name, value) :: rest =>
    .comma :: .text name :: .colon :: (lexemes value ++ moreFieldLexemes rest)

end

/-! ### Reading characters -/

/-- No digit stands at the start of the text. -/
def NoDigit (cs : List Char) : Prop :=
  ∀ c ∈ cs.head?, c.isDigit = false

theorem noDigit_cons {c : Char} (h : c.isDigit = false) (cs : List Char) : NoDigit (c :: cs) :=
  fun _ hd => (Option.mem_some_iff.1 hd) ▸ h

@[simp] theorem emit_nil (more? : Option (List Lexeme)) : emit [] more? = more? := by
  cases more? <;> rfl

@[simp] theorem emit_emit (ls ls' : List Lexeme) (more? : Option (List Lexeme)) :
    emit ls (emit ls' more?) = emit (ls ++ ls') more? := by
  cases more? <;> simp [emit]

section

variable (cs : List Char)

theorem lex_quote_done (done : List Char) :
    lex (.quote done) ('"' :: cs) = emit [.text (String.ofList done)] (lex .between cs) :=
  rfl

theorem lex_hexDigit {n : Nat} (hn : n < 16) (done : List Char) (left value : Nat) :
    lex (.code done (left + 1) value) (hexDigit n :: cs) =
      lex (.code done left (16 * value + n)) cs := by
  have hdigit : ∀ n < 16, hexValue? (hexDigit n) = some n := by decide
  rw [lex, next, hdigit n hn]
  exact emit_nil _

theorem lex_hexDigit_last {n : Nat} (hn : n < 16) (done : List Char) (value : Nat)
    (hvalid : (16 * value + n).isValidChar) :
    lex (.code done 0 value) (hexDigit n :: cs) =
      lex (.quote (done ++ [Char.ofNat (16 * value + n)])) cs := by
  have hdigit : ∀ n < 16, hexValue? (hexDigit n) = some n := by decide
  rw [lex, next, hdigit n hn]
  simp only [Option.bind_some, if_pos hvalid]
  exact emit_nil _

/-- A character in a quoted text is read as it was written. -/
theorem lex_quotedChar (done : List Char) (c : Char) :
    lex (.quote done) (quotedChar c ++ cs) = lex (.quote (done ++ [c])) cs := by
  have hescape : ∀ d e : Char, d ≠ 'u' → escaped? d = some e →
      lex (.quote done) ('\\' :: d :: cs) = lex (.quote (done ++ [e])) cs := by
    intro d e hd he
    simp [lex, next, hd, he]
  rw [quotedChar]
  iterate 7
    split
    · next h => exact hescape _ _ (by decide) (by rw [h]; rfl)
  split
  · next hcontrol =>
    have hlt : c.toNat < 32 := hcontrol
    have hcode : 16 * (16 * 0 + c.toNat / 16) + c.toNat % 16 = c.toNat := by omega
    have hstart : ∀ ds : List Char, lex (.quote done) ("\\u00".toList ++ ds) =
        lex (.code done 1 0) ds := by
      intro ds
      simp [lex, next, hexValue?]
    have hvalid : (16 * (16 * 0 + c.toNat / 16) + c.toNat % 16).isValidChar := by
      rw [hcode]
      exact .inl (by omega)
    rw [List.append_assoc, hstart, List.cons_append, List.singleton_append,
      lex_hexDigit _ (by omega), lex_hexDigit_last _ (by omega) _ _ hvalid, hcode, Char.ofNat_toNat]
  · next hquote hslash _ _ _ _ _ hcontrol =>
    simp [lex, next, hquote, hslash, hcontrol]

/-- A quoted text is read as it was written. -/
theorem lex_quoted (s : String) :
    lex .between (quoted s ++ cs) = emit [.text s] (lex .between cs) := by
  have key : ∀ (text done : List Char),
      lex (.quote done) (text.flatMap quotedChar ++ ('"' :: cs)) =
        emit [.text (String.ofList (done ++ text))] (lex .between cs) := by
    intro text
    induction text with
    | nil => simp [lex_quote_done]
    | cons c text ih =>
      intro done
      rw [List.flatMap_cons, List.append_assoc, lex_quotedChar, ih, List.append_assoc,
        List.singleton_append]
  have hstart : lex .between ('"' :: (s.toList.flatMap quotedChar ++ ('"' :: cs))) =
      lex (.quote []) (s.toList.flatMap quotedChar ++ ('"' :: cs)) := emit_nil _
  rw [quoted, List.append_assoc, List.cons_append, List.singleton_append, hstart, key,
    List.nil_append, String.ofList_toList]

/-- The digits of a number are gathered, whatever follows. -/
theorem lex_toDigits (n : Nat) : lex .between (Nat.toDigits 10 n ++ cs) = lex (.digits n) cs := by
  have hdigit : ∀ d < 10, start d.digitChar = some ([], .digits d) ∧ d.digitChar.isDigit = true ∧
      d.digitChar.toNat - '0'.toNat = d := by decide
  induction n using Nat.strongRecOn generalizing cs with | _ n ih
  by_cases hn : n < 10
  · rw [Nat.toDigits_of_lt_base hn, List.singleton_append, lex, next, (hdigit n hn).1]
    exact emit_nil _
  · obtain ⟨-, hchar, hvalue⟩ := hdigit (n % 10) (by omega)
    have hpositive : n / 10 ≠ 0 := by omega
    have hwhole : 10 * (n / 10) + n % 10 = n := by omega
    rw [Nat.toDigits_of_base_le (by decide) (by omega), List.append_assoc, List.singleton_append,
      ih (n / 10) (by omega), lex, next, if_pos hchar, if_neg hpositive, hvalue, hwhole]
    exact emit_nil _

variable {cs}

/-- A number ends where no digit follows. -/
theorem lex_number (n : Nat) (h : NoDigit cs) :
    lex .between ((toString n).toList ++ cs) = emit [.number n] (lex .between cs) := by
  rw [Nat.toString_eq_ofList_toDigits, String.toList_ofList, lex_toDigits]
  cases cs with
  | nil => rfl
  | cons c cs =>
    have hc : c.isDigit = false := h c rfl
    rw [lex, lex, next, next, hc]
    cases start c with
    | none => rfl
    | some found => exact (emit_emit [.number n] found.1 _).symm

/-- A mark is a lexeme of its own. -/
theorem lex_mark {c : Char} {l : Lexeme} (h : start c = some ([l], .between)) :
    lex .between (c :: cs) = emit [l] (lex .between cs) := by
  rw [lex, next, h]
  rfl

theorem lex_space {c : Char} (h : isSpace c = true) : lex .between (c :: cs) = lex .between cs := by
  rw [lex, next, start, if_pos h]
  exact emit_nil _

theorem lex_newLine (level : Nat) : lex .between (newLine level ++ cs) = lex .between cs := by
  rw [newLine, List.cons_append, lex_space rfl]
  induction 2 * level with
  | zero => rfl
  | succ n ih => rw [List.replicate_succ, List.cons_append, lex_space rfl, ih]

end

/-! ### Reading written values -/

section

variable {cs : List Char} (h : NoDigit cs)

include h

theorem noDigit_compactItems (items : List Json) : NoDigit (compactMoreItems items ++ cs) := by
  cases items with
  | nil => exact h
  | cons item rest => exact noDigit_cons rfl _

theorem noDigit_compactFields (fields : List (String × Json)) :
    NoDigit (compactMoreFields fields ++ cs) := by
  cases fields with
  | nil => exact h
  | cons field rest => exact noDigit_cons rfl _

theorem noDigit_indentedItems (level : Nat) (items : List Json) :
    NoDigit (indentedItems level items ++ cs) := by
  cases items with
  | nil => exact h
  | cons item rest => exact noDigit_cons rfl _

theorem noDigit_indentedFields (level : Nat) (fields : List (String × Json)) :
    NoDigit (indentedFields level fields ++ cs) := by
  cases fields with
  | nil => exact h
  | cons field rest => exact noDigit_cons rfl _

end

mutual

/-- The lexemes of a value on one line. -/
theorem lex_compact (v : Json) {cs : List Char} (h : NoDigit cs) :
    lex .between (compact v ++ cs) = emit (lexemes v) (lex .between cs) := by
  cases v with
  | text s => exact lex_quoted cs s
  | number n => exact lex_number n h
  | list items =>
    rw [compact, List.append_assoc, List.cons_append, List.singleton_append, lex_mark rfl,
      lex_compactItems items (noDigit_cons rfl _), lex_mark rfl, emit_emit, emit_emit]
    rfl
  | object fields =>
    rw [compact, List.append_assoc, List.cons_append, List.singleton_append, lex_mark rfl,
      lex_compactFields fields (noDigit_cons rfl _), lex_mark rfl, emit_emit, emit_emit]
    rfl

theorem lex_compactItems (items : List Json) {cs : List Char} (h : NoDigit cs) :
    lex .between (compactItems items ++ cs) = emit (itemLexemes items) (lex .between cs) := by
  cases items with
  | nil => exact (emit_nil _).symm
  | cons item rest =>
    rw [compactItems, List.append_assoc, lex_compact item (noDigit_compactItems h rest),
      lex_compactMoreItems rest h, emit_emit, itemLexemes]

theorem lex_compactMoreItems (items : List Json) {cs : List Char} (h : NoDigit cs) :
    lex .between (compactMoreItems items ++ cs) =
      emit (moreItemLexemes items) (lex .between cs) := by
  cases items with
  | nil => exact (emit_nil _).symm
  | cons item rest =>
    rw [compactMoreItems, List.append_assoc, List.cons_append, lex_mark rfl,
      lex_compact item (noDigit_compactItems h rest), lex_compactMoreItems rest h, emit_emit,
      emit_emit, moreItemLexemes]
    rfl

theorem lex_compactFields (fields : List (String × Json)) {cs : List Char} (h : NoDigit cs) :
    lex .between (compactFields fields ++ cs) = emit (fieldLexemes fields) (lex .between cs) := by
  cases fields with
  | nil => exact (emit_nil _).symm
  | cons field rest =>
    obtain ⟨name, value⟩ := field
    rw [compactFields, List.append_assoc, List.append_assoc, List.cons_append, lex_quoted,
      lex_mark rfl, lex_compact value (noDigit_compactFields h rest), lex_compactMoreFields rest h,
      emit_emit, emit_emit, emit_emit, fieldLexemes]
    rfl

theorem lex_compactMoreFields (fields : List (String × Json)) {cs : List Char} (h : NoDigit cs) :
    lex .between (compactMoreFields fields ++ cs) =
      emit (moreFieldLexemes fields) (lex .between cs) := by
  cases fields with
  | nil => exact (emit_nil _).symm
  | cons field rest =>
    obtain ⟨name, value⟩ := field
    rw [compactMoreFields, List.append_assoc, List.append_assoc, List.cons_append, lex_mark rfl,
      List.cons_append, lex_quoted, lex_mark rfl,
      lex_compact value (noDigit_compactFields h rest), lex_compactMoreFields rest h, emit_emit,
      emit_emit, emit_emit, emit_emit, moreFieldLexemes]
    rfl

end

mutual

/-- The lexemes of an indented value are the same. -/
theorem lex_indented (level : Nat) (v : Json) {cs : List Char} (h : NoDigit cs) :
    lex .between (indented level v ++ cs) = emit (lexemes v) (lex .between cs) := by
  cases v with
  | text s => exact lex_quoted cs s
  | number n => exact lex_number n h
  | list items =>
    cases items with
    | nil =>
      rw [indented, List.cons_append, List.singleton_append, lex_mark rfl, lex_mark rfl, emit_emit]
      rfl
    | cons item rest =>
      have hend : NoDigit (newLine level ++ (']' :: cs)) := noDigit_cons rfl _
      simp only [indented, List.append_assoc, List.cons_append, List.nil_append]
      rw [lex_mark rfl, lex_newLine,
        lex_indented (level + 1) item (noDigit_indentedItems hend (level + 1) rest),
        lex_indentedItems (level + 1) rest hend, lex_newLine, lex_mark rfl]
      simp [lexemes, itemLexemes]
  | object fields =>
    cases fields with
    | nil =>
      rw [indented, List.cons_append, List.singleton_append, lex_mark rfl, lex_mark rfl, emit_emit]
      rfl
    | cons field rest =>
      obtain ⟨name, value⟩ := field
      have hend : NoDigit (newLine level ++ ('\x7d' :: cs)) := noDigit_cons rfl _
      simp only [indented, List.append_assoc, List.cons_append, List.nil_append]
      rw [lex_mark rfl, lex_newLine, lex_quoted, lex_mark rfl, lex_space rfl,
        lex_indented (level + 1) value (noDigit_indentedFields hend (level + 1) rest),
        lex_indentedFields (level + 1) rest hend, lex_newLine, lex_mark rfl]
      simp [lexemes, fieldLexemes]

theorem lex_indentedItems (level : Nat) (items : List Json) {cs : List Char} (h : NoDigit cs) :
    lex .between (indentedItems level items ++ cs) =
      emit (moreItemLexemes items) (lex .between cs) := by
  cases items with
  | nil => exact (emit_nil _).symm
  | cons item rest =>
    simp only [indentedItems, List.append_assoc, List.cons_append]
    rw [lex_mark rfl, lex_newLine, lex_indented level item (noDigit_indentedItems h level rest),
      lex_indentedItems level rest h]
    simp [moreItemLexemes]

theorem lex_indentedFields (level : Nat) (fields : List (String × Json)) {cs : List Char}
    (h : NoDigit cs) : lex .between (indentedFields level fields ++ cs) =
      emit (moreFieldLexemes fields) (lex .between cs) := by
  cases fields with
  | nil => exact (emit_nil _).symm
  | cons field rest =>
    obtain ⟨name, value⟩ := field
    simp only [indentedFields, List.append_assoc, List.cons_append, List.nil_append]
    rw [lex_mark rfl, lex_newLine, lex_quoted, lex_mark rfl, lex_space rfl,
      lex_indented level value (noDigit_indentedFields h level rest),
      lex_indentedFields level rest h]
    simp [moreFieldLexemes]

end

/-! ### Putting values together -/

section

variable {s s' : State} {l : Lexeme} {ls : List Lexeme}

theorem run_cons (h : s.step l = some s') : s.run (l :: ls) = s'.run ls := by
  rw [State.run, List.foldlM_cons, h]
  rfl

theorem run_append (h : s.run ls = some s') (ls' : List Lexeme) : s.run (ls ++ ls') = s'.run ls' := by
  rw [State.run, List.foldlM_append]
  rw [State.run] at h
  rw [h]
  rfl

/-- The first item of a list is read as any other. -/
theorem run_listOpened (v : Json) (outer : List Frame) (ls : List Lexeme) :
    (State.listOpened outer).run (lexemes v ++ ls) =
      (State.due (.list [] :: outer)).run (lexemes v ++ ls) := by
  cases v <;> rfl

end

mutual

/-- The lexemes of a value are put together to that value. -/
theorem run_lexemes (v : Json) (outer : List Frame) :
    (State.due outer).run (lexemes v) = some (.complete v outer) := by
  cases v with
  | text s => rfl
  | number n => rfl
  | list items =>
    cases items with
    | nil => rfl
    | cons item rest =>
      rw [lexemes, run_cons rfl, itemLexemes, List.append_assoc, run_listOpened,
        run_append (run_lexemes item _), run_moreItemLexemes rest item [] outer, List.nil_append]
  | object fields =>
    cases fields with
    | nil => rfl
    | cons field rest =>
      obtain ⟨name, value⟩ := field
      rw [lexemes, run_cons rfl, fieldLexemes, List.cons_append, run_cons rfl, List.cons_append,
        run_cons rfl, List.append_assoc, run_append (run_lexemes value _),
        run_moreFieldLexemes rest value [] name outer, List.nil_append]

/-- Behind an item of a list the rest of the list is read. -/
theorem run_moreItemLexemes (items : List Json) (v : Json) (done : List Json)
    (outer : List Frame) :
    (State.complete v (.list done :: outer)).run (moreItemLexemes items ++ [.listEnd]) =
      some (.complete (.list (done ++ v :: items)) outer) := by
  cases items with
  | nil => rfl
  | cons item rest =>
    rw [moreItemLexemes, List.cons_append, run_cons rfl, List.append_assoc,
      run_append (run_lexemes item _), run_moreItemLexemes rest item (done ++ [v]) outer,
      List.append_assoc, List.singleton_append]

/-- Behind a field of an object the rest of the object is read. -/
theorem run_moreFieldLexemes (fields : List (String × Json)) (v : Json)
    (done : List (String × Json)) (name : String) (outer : List Frame) :
    (State.complete v (.object done name :: outer)).run
        (moreFieldLexemes fields ++ [.objectEnd]) =
      some (.complete (.object (done ++ (name, v) :: fields)) outer) := by
  cases fields with
  | nil => rfl
  | cons field rest =>
    obtain ⟨name', value⟩ := field
    rw [moreFieldLexemes, List.cons_append, run_cons rfl, List.cons_append, run_cons rfl,
      List.cons_append, run_cons rfl, List.append_assoc, run_append (run_lexemes value _),
      run_moreFieldLexemes rest value (done ++ [(name, v)]) name' outer, List.append_assoc,
      List.singleton_append]

end

/-- Reading undoes writing, whether the value is indented or not. -/
theorem read?_render (v : Json) (indent : Bool) : read? (v.render indent) = some v := by
  have hlex : lex .between (v.render indent).toList = some (lexemes v) := by
    have hnil : NoDigit [] := fun _ hc => absurd hc (by simp)
    have hcompact := lex_compact v hnil
    have hindented := lex_indented 0 v hnil
    rw [List.append_nil] at hcompact hindented
    have hempty : emit (lexemes v) (lex .between []) = some (lexemes v) :=
      congrArg some (List.append_nil _)
    rw [render, String.toList_ofList]
    cases indent with
    | false => exact hcompact.trans hempty
    | true => exact hindented.trans hempty
  rw [read?, hlex, Option.bind_some, run_lexemes]

-- a text that would end a quoted one, and a number behind a space
example : read? "[\"\\\"\\u0041\", \x7b\"size\": 12\x7d ]" =
    some (.list [.text "\"A", .object [("size", .number 12)]]) := by
  rfl

end Grove.Json
