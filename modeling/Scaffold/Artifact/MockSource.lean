import Scaffold.Artifact.Layout

/-!
# The mock source

The constructors and destructors of the mock classes, and a definition for
every method that is not virtual, which returns a value-initialised result. A
method that returns a reference returns a static object.
-/
namespace Scaffold.Artifact.MockSource

/-- The body of a method's definition. -/
def stubBody (m : Method) : List String :=
  if m.returnsReference then
    ["    static std::decay_t<" ++ m.returnType ++ "> stub\x7b\x7d;", "    return stub;"]
  else if m.returnsVoid then []
  else ["    return \x7b\x7d;"]

/-- The definition of a method, after an empty line. -/
def stub (c : ClassDecl) (m : Method) : List String :=
  ["", m.returnType ++ " " ++ c.name ++ "::" ++ m.name ++ "(" ++ m.typedList ++ ")" ++
    constWord m, "\x7b"] ++ stubBody m ++ ["\x7d"]

/-- The definitions for a class. -/
def classLines (c : ClassDecl) : List String :=
  [c.mockName ++ "::" ++ c.mockName ++ "() = default;",
    c.mockName ++ "::~" ++ c.mockName ++ "() = default;"] ++ c.plainMethods.flatMap (stub c)

/-- Some definition returns a reference. -/
def needsTypeTraits (h : Header) : Bool :=
  h.topLevel.any fun c => c.plainMethods.any Method.returnsReference

/-- The lines of the file. -/
def lines (h : Header) : List String :=
  banner h ++ ["#include \"mock_" ++ h.name ++ "\""] ++
    (if needsTypeTraits h then ["", "#include <type_traits>"] else []) ++
    classBlocks h classLines

/-- The text of the file. -/
def text (h : Header) : String := Text.unlines (lines h)

end Scaffold.Artifact.MockSource
