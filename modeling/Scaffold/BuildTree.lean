import Scaffold.Artifact.Render
import Scaffold.Project

/-!
# The tree of build lists

Every test directory has a build list, and the build list of the directory
above it declares it, up to the root of the tests.

* `registerChain` declares a directory and those above it; an existing list
  **only grows at its end**;
* `writeLeaf` writes the list of a test directory anew, and keeps the
  subdirectories that the old one declared.
-/
namespace Scaffold

/-- Writes an artifact, and makes the directory it lies in. -/
def writeArtifact (artifact : Artifact) (target : Path) (parameters : Artifact.Parameters) :
    Job Unit := do
  let text ← Job.ofExcept (artifact.render parameters)
  match target.parent? with
  | some parent => if parent.text.isEmpty then pure () else Job.makeDirs parent
  | none => pure ()
  Job.write target text

namespace BuildTree

open Artifact (BuildList)

/-! ## 1. Declaring subdirectories -/

/-- The text occurs in another. -/
def occursIn (needle : List Char) : List Char → Bool
  | [] => needle.isEmpty
  | c :: cs => needle.isPrefixOf (c :: cs) || occursIn needle cs

/-- What goes between a text and a new last line. -/
def separator (text : String) : String :=
  match text.toList.getLast? with
  | none | some '\n' => ""
  | some _ => "\n"

/-- Declares a subdirectory in the build list of a directory, and starts the
list if there is none. -/
def declare (P : Project) (directory : Path) (child : String) : Job Unit := do
  let file := directory.child BuildList.fileName
  if P.excludes file then Job.report file .skippedExcluded child
  else
    let line := BuildList.declaration child
    match ← Job.tryText (P.absolute file) with
    | .ok text =>
      if occursIn line.toList text.toList then Job.report file .unchanged child
      else
        Job.append (P.absolute file) (separator text ++ line ++ "\n")
        Job.report file .appended child
    | .error .notFound =>
      Job.makeDirs (P.absolute directory)
      Job.write (P.absolute file) (BuildList.started child)
      Job.report file .written child
    | .error fault => .fail (.disk (P.absolute file) fault)

/-- Declares each directory from `leaf` up to the one below `top` in the
directory above it. -/
def declareUpTo (P : Project) (top leaf : Path) : Job Unit :=
  if leaf.same top then pure ()
  else
    match _h : leaf.parent?, leaf.fileName? with
    | some parent, some child => do
      declare P parent child
      declareUpTo P top parent
    | _, _ => pure ()
termination_by leaf.segments.length
decreasing_by exact Path.length_parent?_lt _h

/-- Declares a test directory and those above it, up to the root of the
tests. -/
def registerChain (P : Project) (leaf testRoot : Path) : Job Unit :=
  if leaf.startsWith testRoot then declareUpTo P testRoot leaf
  else .fail (.outsideTestTree leaf testRoot)

/-! ## 2. Lists of test directories -/

/-- Names in order with one more of them. -/
def insertInOrder (name : String) : List String → List String
  | [] => [name]
  | n :: ns => if n < name then n :: insertInOrder name ns else name :: n :: ns

/-- The names in order. -/
def inOrder (names : List String) : List String := names.foldr insertInOrder []

/-- Those of the names that are files in a directory. -/
def filesAmong (directory : Path) : List String → Job (List String)
  | [] => pure []
  | name :: names => do
    let isFile ← Job.isFile (directory.child name)
    let rest ← filesAmong directory names
    pure (if isFile then name :: rest else rest)

/-- The files right inside a directory whose names are as wanted, in order. -/
def filesIn (directory : Path) (wanted : String → Bool) (entries : List (String × EntryKind)) :
    Job (List String) := do
  pure (inOrder (← filesAmong directory ((entries.map Prod.fst).filter wanted)))

/-- The compiled sources right inside a directory, in order; none when there is
no such directory. -/
def compiledFiles (P : Project) (directory : Path) : Job (List String) :=
  .ask (.list (P.absolute directory)) fun
    | .ok entries =>
      filesIn (P.absolute directory) (fun name => P.isSource (directory.child name)) entries
    | .error .notFound => pure []
    | .error fault => .fail (.disk (P.absolute directory) fault)

/-- The include directories of a test: the source directory, and the include
directory inside it if there is one. -/
def includeDirs (P : Project) : Job (List Path) := do
  let source := Path.ofText P.config.sourceDir
  let inner := source.join (Path.ofText P.config.includeDir)
  if ← Job.isDirectory (P.absolute inner) then pure [source, inner] else pure [source]

/-- The subdirectories that the build list at a path declares; none when there
is no list. -/
def declaredAt (file : Path) : Job (List String) := do
  match ← Job.tryText file with
  | .ok text => pure (BuildList.declaredSubdirectories text)
  | .error .notFound => pure []
  | .error fault => .fail (.disk file fault)

/-- Writes the build list of a test directory for the sources of a directory,
all but the one with the main function. -/
def writeLeaf (P : Project) (leaf sourceDir : Path) : Job Unit := do
  let file := leaf.child BuildList.fileName
  if P.excludes file then Job.report file .skippedExcluded none
  else
    let sources ← compiledFiles P sourceDir
    let unitTests ← compiledFiles P leaf
    let includeDirs ← includeDirs P
    let subdirectories ← declaredAt (P.absolute file)
    writeArtifact .buildList (P.absolute file) <| .buildList
      { testName := BuildList.testNameOf leaf
        unitTests
        sources := (sources.filter fun s => some s != P.config.entryPoint).map sourceDir.child
        includeDirs
        subdirectories }
    Job.report file .written none

end BuildTree

end Scaffold
