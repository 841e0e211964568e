import Grove.Calendar
import Grove.Metadata.Properties
import Grove.Project.Pom

/-!
# Build metadata

What a project and a build of it are called: the coordinates of the project, and the date of the
build with its number, which counts the days from 5 December 2020.
-/

namespace Grove

/-- A build, by the day it happens on. -/
structure Build where
  /-- The day. -/
  date : Date
  deriving DecidableEq, Inhabited

namespace Build

/-- The day of build number zero, counted from 1 January 1970. -/
def firstDay : Int := 18601

/-- The number of the build. -/
def number (b : Build) : Int :=
  b.date.dayNumber - firstDay

/-- The date of the build. -/
def dateText (b : Build) : String :=
  b.date.textWith "."

/-- The properties of the build. -/
def properties (b : Build) : Properties :=
  .ofList [("build-number", toString b.number), ("build-date", b.dateText)]

end Build

/-- The properties of a project. Its name is that of its artifact. -/
def Pom.properties (p : Pom) : Properties :=
  .ofList [("project-name", p.coordinates.artifact), ("project-version", p.coordinates.version),
    ("project-group-id", p.coordinates.group), ("project-artifact-id", p.coordinates.artifact)]

/-- The property files of a build of a project, in the order they are written. -/
def metadataFiles (pom : Pom) (build : Build) : List (String × String) :=
  [("project.properties", pom.properties.render), ("build.properties", build.properties.render)]

end Grove
