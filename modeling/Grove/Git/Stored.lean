import Grove.Git.Local

/-!
# Repositories as stored

What the text files of a repository's own directory tell: the branch or commit checked out, the
packed references, and the references with a file of their own, which go before packed ones. The
commits themselves are not among them, so a client over such repositories names branches and refuses
whatever takes a look into a commit.

Main statement: a reference that leads to another one is read as such (`Reference.ofText_symbolic`).
-/

namespace Grove.Git

/-- The text in front of the name of a reference that another one leads to. -/
def symbolicStart : String := "ref: "

/-- What a reference's text says. -/
def Reference.ofText (text : String) : Reference :=
  let line := Text.stripped text
  match Text.dropStart? symbolicStart.toList line.toList with
  | some name => .symbolic (String.ofList name)
  | none => .commit line

/-- A text that starts like one is a reference to another reference. -/
theorem Reference.ofText_symbolic {text : String} {name : List Char}
    (h : (Text.stripped text).toList = symbolicStart.toList ++ name) :
    Reference.ofText text = .symbolic (String.ofList name) := by
  simp [Reference.ofText, h]

/-- What is checked out according to a text. -/
def Head.ofText (text : String) : Head :=
  match Reference.ofText text with
  | .symbolic name =>
    .branch (((Text.dropStart? "refs/heads/".toList name.toList).map String.ofList).getD name)
  | .commit id => .detached id (String.ofList (id.toList.take 7)) id

/-- The references of a packed list: one a line, the commit first. Other lines are remarks. -/
def packedReferences (text : String) : List (String × Reference) :=
  (Text.lines text.toList).filterMap fun line =>
    match line with
    | '#' :: _ => none
    | '^' :: _ => none
    | _ => (Text.cut [' '] line).map fun (id, name) => (String.ofList name, .commit (String.ofList id))

namespace Repository

/-- The repository with these texts: what is checked out, the packed references, and the references
with a file of their own by name. -/
def ofTexts (home : Location) (head packed : String) (loose : List (String × String)) :
    Repository :=
  let refs := packedReferences packed ++ loose.map fun (name, text) => (name, Reference.ofText text)
  refs.foldl (fun r (name, value) => r.setRef name value)
    { empty false home "" with head := Head.ofText head }

end Repository

/-- Access to repositories of which the references are all that is known. -/
def references : Client Host where
  isDirty _ := throw (Failure.git (.unreadable (.status "the commits are not at hand")))
  currentBranch := direct.currentBranch
  listBranches := direct.listBranches
  mutate _ m := throw
    (Failure.git (.commandFailed ("git " ++ " ".intercalate m.words) "the commits are not at hand"))

end Grove.Git
