import Scaffold.Artifact.Layout
import Scaffold.Text.Capital

/-!
# The unit test

A test suite for every class of a header, nested ones included, with one
skipped test per method. Overloads are told apart by a number: **the second
test of a name ends in 2**. Where there is no method there is a placeholder.
-/
namespace Scaffold.Artifact.UnitTest

/-! ## 1. Names -/

/-- Where a name is cut into parts. -/
def isJoint (c : Char) : Bool := c == '_' || c == '-' || c == '.'

/-- The parts of a name, given the (reversed) beginning of the part under
way. Parts may be empty. -/
def partsFrom (begun : List Char) : List Char → List (List Char)
  | [] => [begun.reverse]
  | c :: cs => if isJoint c then begun.reverse :: partsFrom [] cs else partsFrom (c :: begun) cs

/-- The name in one word, each part beginning with a capital. -/
def camelName (name : String) : String :=
  String.ofList ((partsFrom [] name.toList).flatMap Text.capitalized)

/-- Test names for the methods with the given names in one word, when those in
`seen` came before. -/
def testNamesFrom (seen : List String) : List String → List String
  | [] => []
  | n :: ns =>
    (if seen.count n == 0 then n else n ++ toString (seen.count n + 1)) ::
      testNamesFrom (n :: seen) ns

/-- The test names of a class, one per method. -/
def testNames (c : ClassDecl) : List String :=
  testNamesFrom [] (c.methods.map fun m => camelName m.name)

/-- The name of the suite of a class. -/
def suite (c : ClassDecl) : String := String.join (c.outerClasses ++ [c.name]) ++ "Test"

/-- The name of the suite of a header without classes. -/
def headerSuite (h : Header) : String := camelName h.stem ++ "Test"

/-! ## 2. Tests -/

/-- A test that is skipped with a message, after an empty line. -/
def skipped (suite name message : String) : List String :=
  ["", "TEST(" ++ suite ++ ", " ++ name ++ ")", "\x7b",
    "    GTEST_SKIP() << \"" ++ message ++ "\";", "\x7d"]

/-- The only test of what has no methods. -/
def placeholder (suite subject : String) : List String :=
  skipped suite "Placeholder" ("no tests written for " ++ subject ++ " yet")

/-- The test of a method. -/
def methodTest (c : ClassDecl) (name : String) (m : Method) : List String :=
  skipped (suite c) name
    ("no test written for " ++ c.qualifiedName ++ "::" ++ m.name ++ "(" ++ m.typeList ++ ") yet")

/-- The tests of a class. -/
def classTests (c : ClassDecl) : List String :=
  if c.methods.isEmpty then placeholder (suite c) c.qualifiedName
  else ((testNames c).zip c.methods).flatMap fun nm => methodTest c nm.1 nm.2

/-- The lines of the file; `spelling` is how the header is included. -/
def lines (h : Header) (spelling : String) : List String :=
  banner h ++ ["#include <gtest/gtest.h>", "", "#include <" ++ spelling ++ ">"] ++
    if h.classes.isEmpty then placeholder (headerSuite h) h.name
    else h.classes.flatMap classTests

/-- The text of the file. -/
def text (h : Header) (spelling : String) : String := Text.unlines (lines h spelling)

end Scaffold.Artifact.UnitTest
