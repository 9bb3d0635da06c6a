import Scaffold.Artifact.Layout
import Scaffold.Path

/-!
# The build list

The file that tells what a test directory builds and which of its
subdirectories are built too.

* `text` writes the list of a directory from scratch;
* `started` writes the list of a directory that only leads to others;
* `declaredSubdirectories` reads the declared subdirectories back.
-/
namespace Scaffold.Artifact

/-- What a test directory builds. -/
structure BuildList where
  /-- The name of the target. -/
  testName : String
  /-- Files of the directory itself, by name. -/
  unitTests : List String
  /-- The sources under test. -/
  sources : List Path
  includeDirs : List Path
  /-- Subdirectories that are built too. -/
  subdirectories : List String
  deriving DecidableEq, Repr

namespace BuildList

/-- The file name of a build list. -/
def fileName : String := "CMakeLists.txt"

/-- The first lines of every build list. -/
def preamble : List String :=
  ["# Unit-test build list maintained by testgen.",
    "# add_subdirectory() lines are appended as test directories are generated."]

/-! ## 1. Writing -/

/-- The line that declares a subdirectory. -/
def declaration (child : String) : String := "add_subdirectory(" ++ child ++ ")"

/-- How the list refers to the name of its target. -/
def target : String := "$\x7bUT_NAME\x7d"

/-- A path below the root of the build. -/
def fromRoot (p : Path) : String := "    $\x7bCMAKE_SOURCE_DIR\x7d/" ++ p.spelled "/"

/-- What the target is built from. -/
def files (b : BuildList) : List String :=
  b.unitTests.map (fun f => "    " ++ f) ++ b.sources.map fromRoot

/-- The lines of a build list. -/
def lines (b : BuildList) : List String :=
  preamble ++
    ["# This file is regenerated on every unit-test generation for its directory.", "",
      "set(UT_NAME " ++ b.testName ++ ")", "", "add_executable(" ++ target] ++
    b.files ++ [")", ""] ++
    (if b.includeDirs.isEmpty then []
      else ("target_include_directories(" ++ target ++ " PRIVATE") ::
        b.includeDirs.map fromRoot ++ [")", ""]) ++
    ["target_link_libraries(" ++ target ++ " PRIVATE GTest::gtest_main GTest::gmock)", "",
      "gtest_discover_tests(" ++ target ++ ")"] ++
    if b.subdirectories.isEmpty then [] else "" :: b.subdirectories.map declaration

/-- The text of a build list. -/
def text (b : BuildList) : String := Text.unlines b.lines

/-- The text of a new build list that declares one subdirectory and builds
nothing itself. -/
def started (child : String) : String := Text.unlines (preamble ++ ["", declaration child])

/-- The name of the target of a directory. -/
def testNameOf (directory : Path) : String := directory.spelled "_"

/-! ## 2. Reading -/

/-- What is left of a text after the given beginning. -/
def after? : List Char → List Char → Option (List Char)
  | [], cs => some cs
  | _ :: _, [] => none
  | b :: bs, c :: cs => if b == c then after? bs cs else none

/-- The subdirectory that a line declares. -/
def declared? (line : List Char) : Option String := do
  let rest ← after? "add_subdirectory(".toList (Text.trim line)
  match rest.getLast? with
  | some ')' =>
    let name := Text.trim rest.dropLast
    if name.isEmpty then none else some (String.ofList name)
  | _ => none

/-- The subdirectories that a build list declares, each once, in the order of
the text. -/
def declaredSubdirectories (text : String) : List String :=
  ((Text.lines text.toList).filterMap declared?).eraseDups

end BuildList

end Scaffold.Artifact
