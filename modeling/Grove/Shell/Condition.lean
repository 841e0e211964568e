import Grove.Files.Basic
import Grove.Shell.Numeral

/-!
# Conditions

The expressions that `test` judges: words joined by operators, of which `-o` binds least and a
negation most. A word that looks like an operator is one only where an operand cannot stand, so that
any word can be compared.
-/

namespace Grove.Shell

/-- Why a condition cannot be judged. -/
inductive ConditionFault where
  /-- Something follows the condition. -/
  | unexpected (word : String)
  /-- An operator lacks its operand. -/
  | noOperand (operator : String)
  /-- A parenthesis is not closed. -/
  | noParenthesis
  /-- A word is no number. -/
  | noNumber (word : String)
  deriving DecidableEq

/-- The complaint about a fault. -/
def ConditionFault.message : ConditionFault → String
  | .unexpected word => word ++ ": unexpected operator"
  | .noOperand operator => operator ++ ": argument expected"
  | .noParenthesis => "closing paren expected"
  | .noNumber word => "Illegal number: " ++ word

namespace Condition

/-- The operators before an operand. -/
def unary : List String :=
  ["-b", "-c", "-d", "-e", "-f", "-G", "-g", "-h", "-k", "-L", "-n", "-O", "-p", "-r", "-S", "-s",
    "-t", "-u", "-w", "-x", "-z"]

/-- The operators between two operands. -/
def binary : List String :=
  ["=", "!=", "<", ">", "-eq", "-ne", "-lt", "-le", "-gt", "-ge", "-nt", "-ot", "-ef"]

/-- Whether the first word is an operator before an operand, and not an operand itself. -/
def startsUnary : List String → Bool
  | [op, _] => op ∈ unary
  | op :: next :: _ :: _ => op ∈ unary && next ∉ binary
  | _ => false

/-- Whether a test of one operand holds. -/
def holdsOf (files : Files) (operator word : String) : Bool :=
  let path := Path.ofString word
  match operator with
  | "-n" => word != ""
  | "-z" => word = ""
  | "-e" | "-r" | "-w" | "-O" | "-G" => files.holds path
  | "-f" => files.isFile path
  | "-d" => files.isDirectory path
  | "-s" =>
    match files.read path with
    | .ok content => 0 < content.size
    | .error _ => files.isDirectory path
  | "-x" =>
    match files.node path with
    | .ok (.file _ executable) => executable
    | .ok n => n.isDirectory
    | .error _ => false
  | "-h" | "-L" => files.isLink path
  | _ => false

/-- The number that an operand writes. -/
def number (word : String) : Except ConditionFault Int64 :=
  match decimal? word with
  | some n => .ok n
  | none => .error (.noNumber word)

/-- Whether a test of two operands holds. -/
def holdsBetween (operator a b : String) : Except ConditionFault Bool :=
  match operator with
  | "=" => .ok (a = b)
  | "!=" => .ok (a != b)
  | "<" => .ok (a < b)
  | ">" => .ok (b < a)
  | "-eq" => do .ok ((← number a) = (← number b))
  | "-ne" => do .ok ((← number a) != (← number b))
  | "-lt" => do .ok ((← number a) < (← number b))
  | "-le" => do .ok ((← number a) ≤ (← number b))
  | "-gt" => do .ok ((← number b) < (← number a))
  | "-ge" => do .ok ((← number b) ≤ (← number a))
  | _ => .ok false

/-- Judges two operands with an operator between them, with the words that are left. -/
def compare (a operator : String) (rest : List String) : Except ConditionFault (Bool × List String) :=
  match rest with
  | b :: rest => (holdsBetween operator a b).map fun holds => (holds, rest)
  | [] => .error (.noOperand operator)

mutual

/-- Judges conditions of which one has to hold, with the words that are left. -/
def any (fuel : Nat) (files : Files) (words : List String) :
    Except ConditionFault (Bool × List String) :=
  match fuel with
  | 0 => .error .noParenthesis
  | fuel + 1 => do
    match ← all fuel files words with
    | (first, "-o" :: rest) =>
      let (second, rest) ← any fuel files rest
      .ok (first || second, rest)
    | judged => .ok judged

/-- Judges conditions that all have to hold, with the words that are left. -/
def all (fuel : Nat) (files : Files) (words : List String) :
    Except ConditionFault (Bool × List String) :=
  match fuel with
  | 0 => .error .noParenthesis
  | fuel + 1 => do
    match ← single fuel files words with
    | (first, "-a" :: rest) =>
      let (second, rest) ← all fuel files rest
      .ok (first && second, rest)
    | judged => .ok judged

/-- Judges a condition that no operator joins, with the words that are left. -/
def single (fuel : Nat) (files : Files) (words : List String) :
    Except ConditionFault (Bool × List String) :=
  match fuel with
  | 0 => .error .noParenthesis
  | fuel + 1 =>
    match words with
    | [] => .ok (false, [])
    | "!" :: rest => (single fuel files rest).map fun (holds, rest) => (!holds, rest)
    | "(" :: ")" :: rest => .ok (false, rest)
    | first :: next :: rest =>
      if first = "(" then do
        match ← any fuel files (next :: rest) with
        | (holds, ")" :: rest) => .ok (holds, rest)
        | _ => .error .noParenthesis
      else if startsUnary words then .ok (holdsOf files first next, rest)
      else if next ∈ binary then compare first next rest
      else .ok (first != "", next :: rest)
    | [word] => .ok (word != "", [])

end

/-- Judges words, all of which have to belong to the condition. -/
def whole (files : Files) (words : List String) : Except ConditionFault Bool := do
  let (holds, rest) ← any (4 * words.length + 4) files words
  if rest.isEmpty then .ok holds
  else .error (.unexpected ((words[words.length - rest.length - 1]?).getD ""))

/-- Whether a condition holds. Three words with an operator in the middle compare the other two,
whatever they are; else a negation or a pair of parentheses around at most three words comes first. -/
def holds (files : Files) : List String → Except ConditionFault Bool
  | [] => .ok false
  | [a, op, b] =>
    if op ∈ binary then holdsBetween op a b
    else if a = "(" ∧ b = ")" then whole files [op]
    else if a = "!" then (holds files [op, b]).map (!·)
    else whole files [a, op, b]
  | [a, b, c, d] =>
    if a = "(" ∧ d = ")" then whole files [b, c]
    else if a = "!" then (holds files [b, c, d]).map (!·)
    else whole files [a, b, c, d]
  | words => whole files words
termination_by words => words.length

end Condition

end Grove.Shell
