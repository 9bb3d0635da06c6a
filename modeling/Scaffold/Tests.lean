import Scaffold.Mocks

/-!
# Generating unit tests

A unit test for a header, for the headers of a directory, or for those of a
whole tree. After the tests of a directory its build list is written, and the
directories above it declare it. **A test that exists is kept** unless tests
are to be overwritten.
-/
namespace Scaffold.Tests

/-! ## 1. One header -/

/-- Generates the test of a header. -/
def generateOne (P : Project) (overwrite : Bool) (header : Path) : Job Unit := do
  let directory ← Job.ofExcept
    (relocate (header.parent?.getD Path.empty) P.config.sourceDir testsDir)
  let file := directory.child ("ut_" ++ header.fileStem?.getD "" ++ ".cpp")
  if P.excludes file then Job.report file .skippedExcluded none
  else if (← Job.exists (P.absolute file)) && !overwrite then
    Job.report file .skippedExists none
  else
    let h ← describeHeader (P.absolute header)
    writeArtifact .unitTest (P.absolute file) (.header h (P.includeSpelling header))
    Job.report file .written none

/-- The root of the tests that a test directory belongs to. -/
def testRootOf (directory : Path) : Path :=
  ((directory.ancestors.filter (·.endsWith testsDir)).getLast?).getD testsDir

/-- Declares the test directory of a source directory, and writes its build
list. -/
def refresh (P : Project) (sourceDir : Path) : Job Unit := do
  let directory ← Job.ofExcept (relocate sourceDir P.config.sourceDir testsDir)
  BuildTree.registerChain P directory (testRootOf directory)
  BuildTree.writeLeaf P directory sourceDir

/-! ## 2. One directory -/

/-- The headers right inside a directory, in order. -/
def headersIn (P : Project) (directory : Path) : Job (List Path) := do
  let entries ← Job.list (P.absolute directory)
  let names ← BuildTree.filesIn (P.absolute directory)
    (fun name => P.isHeader (directory.child name)) entries
  pure (names.map directory.child)

/-- Generates the tests of the headers right inside a directory. -/
def generateIn (P : Project) (overwrite : Bool) (directory : Path) : Job Unit := do
  let headers ← headersIn P directory
  if headers.isEmpty then pure ()
  else
    Job.each (generateOne P overwrite) headers
    refresh P directory

/-- Generates the tests of a header, or of the headers right inside a
directory. -/
def generate (P : Project) (overwrite : Bool) (input : Path) : Job Unit := do
  let rel ← P.relative input
  match ← Job.kind (P.absolute rel) with
  | some .directory => generateIn P overwrite rel
  | some .file =>
    if P.isHeader rel then
      generateOne P overwrite rel
      refresh P (rel.parent?.getD Path.empty)
    else .fail (P.notHeader rel)
  | _ => .fail (.notFound rel)

/-! ## 3. Whole trees -/

/-- How deep directories may lie: the text of a path has at most 4096 bytes. -/
def deepest : Nat := 4096

/-- Generates the tests of a directory and of those below it, each before what
lies in it. A directory is listed before its tests are generated. The link at
the root of a tree is gone through but has no tests of its own. -/
def generateBelow (P : Project) (overwrite : Bool) : Nat → Bool → Path → Job Unit
  | 0, _, _ => pure ()
  | n + 1, isLink, directory => do
    let entries ← Job.list (P.absolute directory)
    if isLink then pure () else generateIn P overwrite directory
    let names := (entries.filter fun e => e.2 == .directory).map Prod.fst
    Job.each (generateBelow P overwrite n false)
      ((BuildTree.inOrder names).map directory.child)

/-- Generates the tests of a directory and of all directories below it, or of
a header. -/
def generateTree (P : Project) (overwrite : Bool) (input : Path) : Job Unit := do
  let rel ← P.relative input
  if ← Job.isDirectory (P.absolute rel) then
    let own ← Job.ownKind (P.absolute rel)
    generateBelow P overwrite deepest (own == some .link) rel
  else generate P overwrite rel

end Scaffold.Tests
