import Grove.Git.Checkout
import Grove.Host
import Grove.Project.Pom

/-!
# Messages of generated commits

A commit that a tool makes names the project it was made for, who made it where and when, and the
checkouts that are committed together.
-/

namespace Grove

/-- The name and version that generated commits name. -/
def programVersion : String := "0.1.0"

/-- Who makes a commit, and where. -/
structure Author where
  /-- The user's name. -/
  user : String
  /-- The user's home directory. -/
  home : String
  /-- The name of the machine. -/
  machine : String
  deriving DecidableEq, Inhabited

namespace Author

/-- What stands for anything that cannot be told. -/
def unknown : String := "unknown"

/-- The name of a machine: its variable, else its file; an empty name tells nothing. -/
def machineOf (h : Host) : String :=
  let fromFile : Option String :=
    match h.files.readText (.ofString "/etc/hostname") with
    | .ok s => some (Text.stripped s)
    | .error _ => none
  match h.lookup "HOSTNAME" <|> fromFile with
  | some name => if name = "" then unknown else name
  | none => unknown

/-- Whoever uses the host. -/
def ofHost (h : Host) : Author where
  user := (h.lookup "USER" <|> h.lookup "USERNAME").getD unknown
  home := (h.lookup "HOME").getD unknown
  machine := machineOf h

end Author

/-- What the message of a generated commit tells. -/
structure CommitMessage where
  /-- The project. -/
  coordinates : Coordinates
  /-- Who makes the commit. -/
  author : Author
  /-- When. -/
  time : Instant
  /-- The checkouts committed together, in order. -/
  checkouts : List Checkout
  deriving DecidableEq, Inhabited

namespace CommitMessage

/-- A checkout with its directory. -/
def checkoutLine (c : Checkout) : String :=
  "\n  * " ++ c.name ++ " (" ++ c.root.shown ++ ")"

/-- The text of the message. -/
def text (m : CommitMessage) : String :=
  "Generated commit " ++ m.coordinates.text ++ "\n\n" ++
    "User:\t" ++ m.author.user ++ "\n" ++
    "Home:\t" ++ m.author.home ++ "\n" ++
    "Host:\t" ++ m.author.machine ++ "\n" ++
    "Runtime:\tcactus " ++ programVersion ++ "\n" ++
    "When:\t" ++ m.time.text ++ "\n\n" ++
    "Modified checkouts:\n" ++ String.join (m.checkouts.map checkoutLine)

/-- The text of the message for a project and the checkouts committed with it, on a host now. -/
def onHost (pom : Pom) (checkouts : List Checkout) (h : Host) : String :=
  (⟨pom.coordinates, .ofHost h, h.now, checkouts⟩ : CommitMessage).text

end CommitMessage

end Grove
