import Grove.Text.Decimal
import Grove.Text.Split

/-!
# Options on a command line

A command line is a row of words. Words that start with hyphens are options, with their value in the
same word or in the next one; other words name a command. The words are read from left to right, and
reading stops at the first thing that is wrong. A value in a word of its own is looked at only when
the next option or the end is reached.

Main statement: reading a flag that is not yet given adds it (`record_flag`).
-/

namespace Grove.CommandLine

/-- Why a command line is not carried out. -/
inductive UsageError where
  /-- Help was asked for. -/
  | displayHelp
  /-- The version was asked for. -/
  | displayVersion
  /-- A word or option means nothing where it stands. -/
  | unknownArgument
  /-- There is no such command. -/
  | invalidCommand
  /-- A flag was given a value. -/
  | tooManyValues
  /-- A value is missing or is none of those allowed. -/
  | invalidValue
  /-- A value breaks the rule of its option. -/
  | valueValidation
  /-- An option is given twice. -/
  | conflict
  deriving DecidableEq

/-- The code that a program ends with. Help and version are no errors. -/
def UsageError.exitCode : UsageError → Nat
  | displayHelp => 0
  | displayVersion => 0
  | _ => 2

/-- The wording of a usage error. -/
def UsageError.message : UsageError → String
  | displayHelp => "help was asked for"
  | displayVersion => "the version was asked for"
  | unknownArgument => "a word or option means nothing where it stands"
  | invalidCommand => "there is no such command"
  | tooManyValues => "a flag was given a value"
  | invalidValue => "a value is missing or is none of those allowed"
  | valueValidation => "a value breaks the rule of its option"
  | conflict => "an option is given twice"

/-- What an option takes for a value. -/
inductive ValueRule where
  /-- Any text. -/
  | anyText
  /-- A path, which is not empty. -/
  | path
  /-- A whole number up to five. -/
  | level
  /-- A positive number. -/
  | count
  /-- One of `true` and `false`. -/
  | truth
  deriving DecidableEq

/-- Checks a value. -/
def ValueRule.check (rule : ValueRule) (s : String) : Except UsageError Unit :=
  match rule with
  | anyText => .ok ()
  | path => if s = "" then .error .invalidValue else .ok ()
  | level =>
    if (Decimal.int? s.toList).any fun n => 0 ≤ n ∧ n ≤ 5 then .ok () else .error .valueValidation
  | count =>
    if (Decimal.nat? s.toList).any fun n => 0 < n ∧ n < Decimal.wordLimit then .ok ()
    else .error .valueValidation
  | truth => if s = "true" ∨ s = "false" then .ok () else .error .invalidValue

/-- What an option does. -/
inductive OptionKind where
  /-- Asks for help. -/
  | help
  /-- Asks for the version. -/
  | version
  /-- Is given or not. -/
  | flag
  /-- Has a value. -/
  | valued (rule : ValueRule)
  deriving DecidableEq

/-- An option. -/
structure OptionSpec where
  /-- The name after two hyphens. -/
  name : String
  /-- The letter after one hyphen, if it has one. -/
  letter? : Option Char
  /-- What the option does. -/
  kind : OptionKind
  /-- Whether it may be given several times, with all values in force. -/
  repeats : Bool
  /-- The option that it puts out of force. -/
  opposite? : Option String
  deriving DecidableEq

namespace OptionSpec

/-- A flag. -/
def flag (name : String) : OptionSpec :=
  ⟨name, none, .flag, false, none⟩

/-- An option with a value. -/
def valued (name : String) (rule : ValueRule) (letter? : Option Char) : OptionSpec :=
  ⟨name, letter?, .valued rule, false, none⟩

end OptionSpec

/-- What may stand at one place of a command line: options and commands. -/
structure Level where
  /-- The options. -/
  options : List OptionSpec
  /-- The commands. -/
  commands : List String

/-- The options given, with their values in order; a flag has none. -/
abbrev Given := List (String × List String)

namespace Given

/-- The values of an option. -/
def values (g : Given) (name : String) : List String :=
  (g.lookup name).getD []

/-- The value of an option. -/
def value? (g : Given) (name : String) : Option String :=
  (g.values name).head?

/-- Whether an option is given. -/
def has (g : Given) (name : String) : Bool :=
  (g.lookup name).isSome

/-- All options given here, and those given there that are not given here. -/
def onto (here there : Given) : Given :=
  here ++ there

end Given

/-- How far reading has come. -/
structure Reading where
  /-- The options read. -/
  given : Given
  /-- An option whose value has not been looked at, with the value once it was read. -/
  pending? : Option (OptionSpec × Option String)
  /-- Whether only plain words may follow. -/
  plainOnly : Bool

namespace Reading

/-- Nothing read. -/
def start : Reading :=
  ⟨[], none, false⟩

/-- Whether the next plain word is a value. -/
def awaitsValue (r : Reading) : Bool :=
  match r.pending? with
  | some (_, none) => true
  | _ => false

/-- Records that an option is given, with the values of this time. -/
def record (o : OptionSpec) (values : List String) (given : Given) : Except UsageError Given := do
  if given.has o.name && !o.repeats then throw .conflict
  if let .valued rule := o.kind then
    for v in values do rule.check v
  let before := given.values o.name
  let rest := given.filter fun e => e.1 ≠ o.name ∧ some e.1 ≠ o.opposite?
  return rest ++ [(o.name, before ++ values)]

/-- Looks at the value of the option before. -/
def settle (r : Reading) : Except UsageError Reading :=
  match r.pending? with
  | none => .ok r
  | some (_, none) => .error .invalidValue
  | some (o, some v) => do return { r with given := ← record o [v] r.given, pending? := none }

/-- Reads an option together with a value in the same word, if there is one. -/
def option (o : OptionSpec) (attached? : Option String) (r : Reading) : Except UsageError Reading :=
  match o.kind, attached? with
  | .valued _, some v => do
    let r ← r.settle
    return { r with given := ← record o [v] r.given }
  | .valued _, none => do
    let r ← r.settle
    return { r with pending? := some (o, none) }
  | _, some _ => .error .tooManyValues
  | .help, none => do
    let _ ← r.settle
    throw .displayHelp
  | .version, none => do
    let _ ← r.settle
    throw .displayVersion
  | .flag, none => do
    let r ← r.settle
    return { r with given := ← record o [] r.given }

/-- Reads the letters after a single hyphen. The letter of an option with a value takes what follows
it for the value, less an equals sign. -/
def letters (level : Level) : List Char → Reading → Except UsageError Reading
  | [], r => .ok r
  | c :: rest, r =>
    match level.options.find? (·.letter? = some c) with
    | none => .error .unknownArgument
    | some o =>
      match o.kind, rest with
      | .valued _, [] => r.option o none
      | .valued _, '=' :: value => r.option o (some (String.ofList value))
      | .valued _, value => r.option o (some (String.ofList value))
      | _, rest => do letters level rest (← r.option o none)

/-- Reads the word after two hyphens. -/
def long (level : Level) (word : List Char) (r : Reading) : Except UsageError Reading :=
  let (name, value?) := match Text.cut ['='] word with
    | some (name, value) => (name, some (String.ofList value))
    | none => (word, none)
  match level.options.find? (·.name = String.ofList name) with
  | none => .error .unknownArgument
  | some o => r.option o value?

/-- What a plain word means where no value is awaited and that is no command, or stands behind `--`. -/
def misplaced (level : Level) (word : String) (r : Reading) : UsageError :=
  if level.commands.isEmpty ∨ (r.plainOnly ∧ word ∈ level.commands) then .unknownArgument
  else .invalidCommand

/-- Reads a word other than a command. -/
def word (level : Level) (w : String) (r : Reading) : Except UsageError Reading :=
  let plain : Except UsageError Reading :=
    match r.pending? with
    | some (o, none) => .ok { r with pending? := some (o, some w) }
    | _ => .error (misplaced level w r)
  if r.plainOnly then .error (misplaced level w r)
  else
    match w.toList with
    | ['-', '-'] => .ok { r with plainOnly := true }
    | '-' :: '-' :: rest => r.long level rest
    | ['-'] => plain
    | '-' :: rest => r.letters level rest
    | _ => plain

/-- Reads words up to a command, which is answered with the words after it. -/
def words (level : Level) : List String → Reading →
    Except UsageError (Reading × Option (String × List String))
  | [], r => if r.awaitsValue then .error .invalidValue else .ok (r, none)
  | w :: rest, r =>
    if !r.plainOnly && !r.awaitsValue && level.commands.contains w then .ok (r, some (w, rest))
    else do words level rest (← r.word level w)

/-- A flag that is not yet given is added to what is given. -/
theorem record_flag {o : OptionSpec} {given : Given} (hkind : o.kind = .flag)
    (hopposite : o.opposite? = none) (hnew : given.has o.name = false) :
    record o [] given = .ok (given ++ [(o.name, [])]) := by
  have hlookup : given.lookup o.name = none := by simpa [Given.has] using hnew
  have hfilter : given.filter (fun e => e.1 ≠ o.name ∧ some e.1 ≠ o.opposite?) = given := by
    refine List.filter_eq_self.2 fun e he => ?_
    have hne := List.lookup_eq_none_iff.1 hlookup e he
    have : e.1 ≠ o.name := fun h => by simp [h] at hne
    simp [this, hopposite]
  simp only [record, hnew, hkind, hfilter, Given.values, hlookup]
  rfl

end Reading

end Grove.CommandLine
