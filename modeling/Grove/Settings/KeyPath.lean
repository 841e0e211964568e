import Grove.Settings.Value

/-!
# Key paths

A key path leads from a table to a value in it: a key, then further keys after a point and places of
lists in brackets, counted from the end when they are negative, as in `docs.args[0]`. Setting a value
at a path makes what is missing on the way; a table is merged key by key into the table that is
there, any other value takes the place of what is there.

Main statement: a value other than a table is found where it was set (`get?_set_self`).
-/

namespace Grove.Settings

/-- One step of a path after the first key. -/
inductive KeyStep where
  /-- An entry of a table. -/
  | key (name : String)
  /-- A place in a list. -/
  | index (i : Int)
  deriving DecidableEq

/-- A way to a value. -/
structure KeyPath where
  /-- The first key. -/
  first : String
  /-- What follows it. -/
  rest : List KeyStep
  deriving DecidableEq

namespace KeyPath

/-! ### Reading -/

/-- Whether the character can stand in a key. -/
def isKeyChar (c : Char) : Bool :=
  c.isAlphanum || c = '_' || c = '-'

/-- Whether the character may surround a place of a list. -/
def isGap (c : Char) : Bool :=
  c = ' ' || c = '\t'

/-- A key at the start of the text. -/
def key? (cs : List Char) : Option (String × List Char) :=
  match cs.takeWhile isKeyChar with
  | [] => none
  | name => some (String.ofList name, cs.dropWhile isKeyChar)

/-- A place of a list at the start of the text, up to and with the closing bracket. -/
def index? (cs : List Char) : Option (Int × List Char) :=
  let cs := cs.dropWhile isGap
  let (negative, cs) := match cs with
    | '-' :: rest => (true, rest)
    | rest => (false, rest)
  let digits := cs.takeWhile Char.isDigit
  let n := Decimal.value digits
  match (cs.dropWhile Char.isDigit).dropWhile isGap with
  | ']' :: rest =>
    if digits.isEmpty ∨ Decimal.signedLimit ≤ n then none else some (if negative then -n else n, rest)
  | _ => none

/-- The steps after the first key; `fuel` bounds their number. -/
def steps? : Nat → List Char → Option (List KeyStep)
  | _, [] => some []
  | 0, _ => none
  | fuel + 1, '.' :: rest => do
    let (name, rest) ← key? rest
    return .key name :: (← steps? fuel rest)
  | fuel + 1, '[' :: rest => do
    let (i, rest) ← index? rest
    return .index i :: (← steps? fuel rest)
  | _, _ => none

/-- Reads a path. -/
def ofString? (s : String) : Option KeyPath := do
  let (name, rest) ← key? s.toList
  return ⟨name, ← steps? rest.length rest⟩

/-- The path to the entry of a section. -/
def ofSection (group key : String) : KeyPath :=
  ⟨group, [.key key]⟩

/-! ### Setting -/

/-- Puts a value under a key, in the place of the one that is there. -/
def putEntry (name : String) (v : Value) : List (String × Value) → List (String × Value)
  | [] => [(name, v)]
  | (k, x) :: rest => if name = k then (k, v) :: rest else (k, x) :: putEntry name v rest

/-- The list with room for a place, and the place counted from the start. A place before the start
moves the items back. -/
def roomFor (i : Int) (items : List Value) : List Value × Nat :=
  if 0 ≤ i then (items ++ List.replicate (i.toNat + 1 - items.length) .absent, i.toNat)
  else if i.natAbs ≤ items.length then (items, items.length - i.natAbs)
  else (List.replicate (i.natAbs - items.length) .absent ++ items, 0)

/-- Changes the value at the end of the steps. -/
def change (f : Value → Value) : List KeyStep → Value → Value
  | [], v => f v
  | .key name :: rest, v =>
    .table (putEntry name (change f rest ((v.entries.lookup name).getD .absent)) v.entries)
  | .index i :: rest, v =>
    let (items, place) := roomFor i v.items
    .list (items.set place (change f rest (items.getD place .absent)))

/-- What a table can be set over: nothing counts as an empty table. -/
def ground : Value → Value
  | .absent => .table []
  | v => v

mutual

/-- What stands at a place where `new` is set over `old`. -/
def merge (old : Value) : Value → Value
  | .table es => mergeEntries (ground old) es
  | new => new

/-- What stands at a place where the entries of a table are set, each of which needs a table there. -/
def mergeEntries (old : Value) : List (String × Value) → Value
  | [] => old
  | (name, v) :: rest =>
    mergeEntries
      (.table (putEntry name (merge ((old.entries.lookup name).getD .absent) v) old.entries)) rest

end

/-- Sets a value at a path. -/
def set (p : KeyPath) (new root : Value) : Value :=
  change (merge · new) (.key p.first :: p.rest) root

/-- The value at the end of steps through tables. -/
def get? : List String → Value → Option Value
  | [], v => some v
  | name :: rest, v => (v.entries.lookup name).bind (get? rest)

theorem lookup_putEntry_self (name : String) (v : Value) (es : List (String × Value)) :
    (putEntry name v es).lookup name = some v := by
  induction es with
  | nil => simp [putEntry]
  | cons e rest ih =>
    obtain ⟨k, x⟩ := e
    by_cases h : name = k
    · simp [putEntry, h]
    · simp [putEntry, h, List.lookup_cons, beq_eq_false_iff_ne.2 h, ih]

theorem lookup_putEntry_of_ne {name other : String} (h : other ≠ name) (v : Value)
    (es : List (String × Value)) : (putEntry name v es).lookup other = es.lookup other := by
  induction es with
  | nil => simp [putEntry, List.lookup_cons, beq_eq_false_iff_ne.2 h]
  | cons e rest ih =>
    obtain ⟨k, x⟩ := e
    by_cases hk : name = k
    · subst hk
      simp [putEntry, List.lookup_cons, beq_eq_false_iff_ne.2 h]
    · simp only [putEntry, hk, if_false, List.lookup_cons]
      split <;> simp [ih]

/-- A changed value is found at the end of the keys. -/
theorem get?_change_self (f : Value → Value) (names : List String) (v : Value) :
    ∃ old, get? names (change f (names.map .key) v) = some (f old) := by
  induction names generalizing v with
  | nil => exact ⟨v, rfl⟩
  | cons name rest ih =>
    obtain ⟨old, h⟩ := ih ((v.entries.lookup name).getD .absent)
    exact ⟨old, by simp [change, get?, lookup_putEntry_self, h]⟩

/-- A value other than a table is found where it was set. -/
theorem get?_set_self (group : String) (names : List String) {new : Value} (root : Value)
    (h : ∀ es, new ≠ .table es) :
    get? (group :: names) (set ⟨group, names.map .key⟩ new root) = some new := by
  have hmerge : ∀ old, merge old new = new := by
    intro old
    cases new <;> simp_all [merge]
  obtain ⟨old, hold⟩ := get?_change_self (merge · new) (group :: names) root
  rw [hmerge] at hold
  exact hold

example : ofString? "docs.args[ -1 ]" = some ⟨"docs", [.key "args", .index (-1)]⟩ := by decide
example : ofString? "a..b" = none := by decide

end KeyPath

end Grove.Settings
