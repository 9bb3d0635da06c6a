import Scaffold.Config
import Scaffold.Glob
import Scaffold.Relocation
import Scaffold.Job

/-!
# Projects

A directory with settings. Files of a project are named by paths **relative to
its root**; `relative` finds that path for whatever a user writes, and
`absolute` goes back.
-/
namespace Scaffold

/-- The directory of generated mocks. -/
def mocksDir : Path := ⟨false, ["tests", "mocks"]⟩

/-- The directory of generated unit tests. -/
def testsDir : Path := ⟨false, ["tests", "ut"]⟩

/-- A root directory, its settings, and the files below it that are never
written. -/
structure Project where
  root : Path
  config : Config
  /-- The file is excluded. -/
  excludes : Path → Bool

namespace Project

/-- The patterns with the given texts. -/
def readGlobs : List String → Except Failure (List Glob)
  | [] => .ok []
  | p :: ps =>
    match Glob.ofText p with
    | .error e => .error (.config ("invalid exclude pattern '" ++ p ++
        "': error parsing glob '" ++ p ++ "': " ++ e.message))
    | .ok g => (readGlobs ps).map (g :: ·)

/-- The project at a root with the given settings. -/
def make (root : Path) (config : Config) : Except Failure Project :=
  (readGlobs config.exclude).map fun globs =>
    ⟨root, config, fun p => globs.any (·.matches p.text)⟩

/-! ## 1. Paths of a project -/

/-- A path of the project, from the root of the disk. -/
def absolute (P : Project) (p : Path) : Path := P.root.join p

/-- The path without dots that stand for nothing. -/
def plain (steps : List Path.Component) : Path :=
  Path.empty.walk (steps.filter (· != .here))

/-- The path in the project of what a path leads to. A rooted path has to lead
below the root of the project, by its canonical form or as it is written. -/
def relative (P : Project) (p : Path) : Job Path := do
  if p.rooted then
    let root ← Job.canonical P.root
    let target ← Job.canonical p
    match (target.stepsBelow? root).or (p.stepsBelow? P.root) with
    | some steps => pure (plain steps)
    | none => .fail (.outsideSourceTree p P.config.sourceDir)
  else pure (plain p.components)

/-! ## 2. Kinds of files -/

/-- The path has the extension of a header. -/
def isHeader (P : Project) (p : Path) : Bool := p.hasExtension P.config.headerExtensions

/-- The path has the extension of a compiled source. -/
def isSource (P : Project) (p : Path) : Bool := p.hasExtension P.config.sourceExtensions

/-- The failure of a path that is not one of a header. -/
def notHeader (P : Project) (p : Path) : Failure := .notHeader p P.config.headerExtensions

/-! ## 3. Includes -/

/-- The list behind the first occurrence of `a`; the whole list when there is
none. -/
def behindFirst (a : String) (l : List String) : List String :=
  match l.dropWhile (· != a) with
  | [] => l
  | _ :: rest => rest

/-- How a generated file includes a header: by its path from the source
directory, or from the include directory inside that. -/
def includeSpelling (P : Project) (header : Path) : String :=
  let steps := behindFirst P.config.sourceDir (header.components.map Path.Component.text)
  "/".intercalate <|
    match steps with
    | s :: t :: rest => if s == P.config.includeDir then t :: rest else steps
    | _ => steps

end Project

end Scaffold
