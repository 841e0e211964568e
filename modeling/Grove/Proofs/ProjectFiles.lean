import Grove.Proofs.ProjectSheets

/-!
# Project files that name a project

The shortest project file that gives a project its coordinates. What stands between the tags of an
element is its value, whatever it says: no coordinate is looked at before it is taken.

## What is proved

* `parse_projectFile` — a project file may give any artifact id and version without brackets.
-/

namespace Grove

namespace Text

/-- A text in pieces, each of which starts at a bracket. -/
def bracketed (pieces : List (List Char)) : List Char :=
  pieces.flatMap ('<' :: ·)

end Text

namespace Pom

open Text

/-- What the tag that opens an element says after its bracket. -/
def tagOf (name : String) : List Char :=
  name.toList ++ ['>']

/-- What stands before the artifact id in a project file. -/
def pieceHead : List (List Char) :=
  [tagOf "project", tagOf "groupId" ++ "com.telenav".toList, '/' :: tagOf "groupId"]

/-- The pieces of a project file with these coordinates. -/
def filePieces (artifact version : String) : List (List Char) :=
  pieceHead ++ [tagOf "artifactId" ++ artifact.toList, '/' :: tagOf "artifactId",
    tagOf "version" ++ version.toList, '/' :: tagOf "version", '/' :: tagOf "project"]

/-- A project file with these coordinates. -/
def projectFile (artifact version : String) : String :=
  String.ofList (bracketed (filePieces artifact version))

example : projectFile "core" "1.0.0" = "<project><groupId>com.telenav</groupId>" ++
    "<artifactId>core</artifactId><version>1.0.0</version></project>" := by decide

/-- A project file may give any artifact id and version without brackets. -/
theorem parse_projectFile (path : Path) {artifact version : String}
    (hartifact : isElementText artifact = true) (hversion : isElementText version = true) :
    parse path (projectFile artifact version) =
      .ok ⟨path, ⟨"com.telenav", artifact, version⟩, "jar"⟩ := by
  let s : Sheet :=
    { above := [{ field := .group, value := ⟨"com.telenav", by decide⟩ },
        { field := .artifact, value := ⟨artifact, hartifact⟩ },
        { field := .version, value := ⟨version, hversion⟩ }]
      parent? := none
      below := [] }
  have htext : projectFile artifact version = s.text := by
    simp [projectFile, bracketed, filePieces, pieceHead, tagOf, Sheet.text, Sheet.tokens, s,
      Entry.tokens, Entry.elementTokens, Markup.Token.chars, openTag, closeTag, Field.name]
  rw [htext, s.parse_text]
  rfl

end Pom

end Grove
