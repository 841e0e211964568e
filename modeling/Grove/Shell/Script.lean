/-!
# Shell scripts

The commands of the shell and the words they are made of. A word is a list of pieces; what a piece
stands for depends on the state in which the word is expanded.
-/

namespace Grove.Shell

/-- What is done with the value of a parameter. -/
inductive ParameterUse where
  /-- The value itself. -/
  | value
  /-- The number of its characters. -/
  | length
  /-- The value without a start that matches, the shortest or the longest. -/
  | withoutStart (longest : Bool)
  /-- The value without an end that matches, the shortest or the longest. -/
  | withoutEnd (longest : Bool)
  /-- The value, or a word when there is none; an empty value can count as none. -/
  | orElse (emptyCounts : Bool)
  /-- As `orElse`, and the word becomes the value. -/
  | orAssign (emptyCounts : Bool)
  /-- A word when there is a value, else nothing. -/
  | whenSet (emptyCounts : Bool)
  /-- The value; the shell ends with a word as its complaint when there is none. -/
  | orFail (emptyCounts : Bool)
  deriving DecidableEq

/-- How a redirection opens its file. -/
inductive RedirectionKind where
  /-- Reads the file. -/
  | input
  /-- Empties the file and writes to it. -/
  | output
  /-- Writes at the end of the file. -/
  | append
  /-- Writes to where another descriptor writes. -/
  | duplicate
  /-- Reads the text that the target itself is. -/
  | here
  deriving DecidableEq

mutual

/-- A piece of a word. -/
inductive Piece where
  /-- Text as it stands. -/
  | text (chars : List Char) (quoted : Bool)
  /-- A parameter, with the word that its use needs. -/
  | parameter (name : String) (use : ParameterUse) (word : List Piece) (quoted : Bool)
  /-- The value of an arithmetic expression. -/
  | sum (expression : List Piece) (quoted : Bool)
  /-- What a command prints. -/
  | output (command : Command) (quoted : Bool)

/-- A redirection of a descriptor. -/
inductive Redirection where
  /-- Opens the target for the descriptor. -/
  | mk (descriptor : Nat) (kind : RedirectionKind) (target : List Piece)

/-- A command. -/
inductive Command where
  /-- Does nothing. -/
  | nothing
  /-- Assignments, and a program with its arguments. -/
  | simple (assignments : List (String × List Piece)) (words : List (List Piece))
  /-- A command with some descriptors redirected. -/
  | redirected (command : Command) (redirections : List Redirection)
  /-- One after the other. -/
  | seq (first second : Command)
  /-- The second if the first succeeds. -/
  | andThen (first second : Command)
  /-- The second if the first fails. -/
  | orElse (first second : Command)
  /-- Success for failure and the reverse. -/
  | negated (command : Command)
  /-- The second reads what the first prints. -/
  | pipe (first second : Command)
  /-- One of two commands. -/
  | choice (condition yes no : Command)
  /-- The body as long as the condition succeeds, or fails. -/
  | loop (condition body : Command) (untilSuccess : Bool)
  /-- The body for each of some words, or for each argument. -/
  | each (name : String) (words : Option (List (List Piece))) (body : Command)
  /-- The command of the first pattern that a word matches. -/
  | select (word : List Piece) (arms : List (List (List Piece) × Command))
  /-- A command whose effects on the shell itself are forgotten. -/
  | subshell (command : Command)
  /-- A command that nobody waits for. -/
  | background (command : Command)
  /-- A function of a name, which runs the body. -/
  | define (name : String) (body : Command)

end

instance : Inhabited Command := ⟨.nothing⟩

/-- Whether a redirection changes what is read. -/
def Redirection.reads : Redirection → Bool
  | .mk _ .input _ => true
  | .mk _ .here _ => true
  | _ => false

/-- Whether a command is the one whose redirections stay in force. -/
def Command.isExec : Command → Bool
  | .simple [] [[.text chars false]] => chars = "exec".toList
  | _ => false

/-- The commands of a script, as far as its text keeps to the grammar. -/
structure Script where
  /-- The commands, line by line. -/
  commands : List Command
  /-- Whether the text breaks the grammar after them. -/
  broken : Bool

/-- A word of a command. -/
abbrev Word := List Piece

end Grove.Shell
