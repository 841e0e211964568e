import Grove.Host
import Grove.Metadata.Build

/-!
# Writing build metadata

The two property files of a build, written into a directory or, in pretend mode, only shown.
-/

namespace Grove

/-- Writes files into a directory one by one, or shows them, and answers their paths. -/
def writeEach (directory : Path) (pretend : Bool) :
    List (String × String) → Action Host (List Path)
  | [] => pure []
  | (name, text) :: rest => do
    let path := directory.child name
    if pretend then
      Action.note .info ("Would write " ++ path.shown ++ ":\n" ++ text)
    else
      Action.onHost (Host.writeText path text)
      Action.note .info ("Wrote " ++ path.shown)
    return path :: (← writeEach directory pretend rest)

/-- Writes the metadata of a build of a project into a directory, which is made if it is missing. -/
def writeMetadata (pom : Pom) (build : Build) (directory : Path) (pretend : Bool) :
    Action Host (List Path) := do
  unless pretend do
    Action.onHost (Host.createDirectories directory)
  writeEach directory pretend (metadataFiles pom build)

end Grove
