/-!
# Kinds of artifacts

The five kinds of files that are generated, and the name of the form each is
written by.
-/
namespace Scaffold

/-- A kind of generated file. -/
inductive Artifact where
  /-- A copy of a header that declares nothing but the interface. -/
  | interfaceHeader
  /-- The mock classes. -/
  | mockHeader
  /-- The definitions a mock links against. -/
  | mockSource
  /-- The test skeleton of a header. -/
  | unitTest
  /-- The list of what a test directory builds. -/
  | buildList
  deriving DecidableEq, Repr

namespace Artifact

/-- The name of the form an artifact is written by. -/
def id : Artifact → String
  | .interfaceHeader => "mock/class_interface.h"
  | .mockHeader => "mock/mock_class.h"
  | .mockSource => "mock/mock_class.cpp"
  | .unitTest => "ut/ut_header.cpp"
  | .buildList => "ut/CMakeLists.txt"

/-- All kinds, in order. -/
def all : List Artifact :=
  [.interfaceHeader, .mockHeader, .mockSource, .unitTest, .buildList]

end Artifact

end Scaffold
