import Grove.Settings.Value

/-!
# Documents under construction

A settings document is a sequence of headers and assignments. A draft is the table they have built so
far. A table remembers how it came about, since that decides what may still be added: a table under a
header of its own gets no second header and nothing by way of dotted keys, and a table made by
dotted keys gets no header. Nothing is assigned twice.

Main statement: what was assigned is read at its key (`lookup_assign_self`).
-/

namespace Grove.Settings

/-- How a table came about. -/
inductive Origin where
  /-- On the way to a table with a header. -/
  | implied
  /-- By a header. -/
  | headed
  /-- By a dotted key. -/
  | dotted
  deriving DecidableEq

/-- A value, or a table or list of tables that may still grow. -/
inductive Draft where
  /-- A value that is complete. -/
  | value (v : Value)
  /-- A table with its entries in order. -/
  | table (origin : Origin) (entries : List (String × Draft))
  /-- A list of tables, of which the last may still grow. -/
  | rows (tables : List Draft)
  deriving Inhabited

namespace Draft

/-- Puts an entry under a key, in the place of the one that is there. -/
def putEntry (name : String) (d : Draft) : List (String × Draft) → List (String × Draft)
  | [] => [(name, d)]
  | (k, x) :: rest => if name = k then (k, d) :: rest else (k, x) :: putEntry name d rest

/-- Changes the entries of a table, or those of the last table of a list. -/
def changeEntries (f : List (String × Draft) → Option (List (String × Draft))) :
    Draft → Option Draft
  | value _ => none
  | table origin es => (f es).map (table origin)
  | rows tables =>
    match tables.reverse with
    | table origin es :: before => (f es).map fun es => rows (before.reverse ++ [table origin es])
    | _ => none

/-- Assigns a value to a dotted key. -/
def assign (v : Value) : List String → List (String × Draft) → Option (List (String × Draft))
  | [], _ => none
  | [name], es => if (es.lookup name).isSome then none else some (putEntry name (value v) es)
  | name :: rest, es =>
    match es.lookup name with
    | none => (assign v rest []).map fun inner => putEntry name (table .dotted inner) es
    | some (.table .headed _) => none
    | some (.table .dotted inner) =>
      (assign v rest inner).map fun inner => putEntry name (table .dotted inner) es
    | some d =>
      if rest.length = 1 then none
      else (d.changeEntries (assign v rest)).map fun d => putEntry name d es

/-- Changes what stands at a path, where tables on the way are made when they are missing. -/
def reach (act : Option Draft → Option Draft) :
    List String → List (String × Draft) → Option (List (String × Draft))
  | [], _ => none
  | [name], es => (act (es.lookup name)).map fun d => putEntry name d es
  | name :: rest, es =>
    match es.lookup name with
    | none => (reach act rest []).map fun inner => putEntry name (table .implied inner) es
    | some d => (d.changeEntries (reach act rest)).map fun d => putEntry name d es

/-- Gives a table its header. -/
def openTable : Option Draft → Option Draft
  | none => some (table .headed [])
  | some (table .implied es) => some (table .headed es)
  | some _ => none

/-- Starts one more table of a list. -/
def openRow : Option Draft → Option Draft
  | none => some (rows [table .headed []])
  | some (rows tables) => some (rows (tables ++ [table .headed []]))
  | some _ => none

/-- Assigns a value to a dotted key of the table under a header, or of the top table. -/
def assignUnder (header key : List String) (v : Value) (es : List (String × Draft)) :
    Option (List (String × Draft)) :=
  match header with
  | [] => assign v key es
  | _ => reach (fun d? => d?.bind (changeEntries (assign v key))) header es

mutual

/-- The value that a draft has become. -/
def finish : Draft → Value
  | value v => v
  | table _ es => .table (finishEntries es)
  | rows tables => .list (finishRows tables)

/-- The entries that a table has in the end. -/
def finishEntries : List (String × Draft) → List (String × Value)
  | [] => []
  | (name, d) :: rest => (name, d.finish) :: finishEntries rest

/-- The tables that a list has in the end. -/
def finishRows : List Draft → List Value
  | [] => []
  | d :: rest => d.finish :: finishRows rest

end

theorem lookup_putEntry_self (name : String) (d : Draft) (es : List (String × Draft)) :
    (putEntry name d es).lookup name = some d := by
  induction es with
  | nil => simp [putEntry]
  | cons e rest ih =>
    obtain ⟨k, x⟩ := e
    by_cases h : name = k
    · simp [putEntry, h]
    · simp [putEntry, h, List.lookup_cons, beq_eq_false_iff_ne.2 h, ih]

/-- What was assigned to a plain key is read there. -/
theorem lookup_assign_self {v : Value} {name : String} {es new : List (String × Draft)}
    (h : assign v [name] es = some new) : new.lookup name = some (value v) := by
  simp only [assign] at h
  split at h
  · exact absurd h (by simp)
  · obtain rfl := by simpa using h
    exact lookup_putEntry_self ..

end Draft

end Grove.Settings
