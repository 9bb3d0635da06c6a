import Scaffold.Artifact.Layout

/-!
# The mock header

The mock class of each top-level class, with one mock macro for every virtual
method. The macro takes its arguments apart at commas, so a type with a comma
in it is **wrapped in parentheses**.
-/
namespace Scaffold.Artifact.MockHeader

/-- A type as a macro argument. -/
def macroArgument (type : String) : String :=
  if type.toList.contains ',' then "(" ++ type ++ ")" else type

/-- The macro that mocks a method, such as
`MOCK_METHOD(int, get, (int), (override, const))`. -/
def mockMacro (m : Method) : String :=
  "MOCK_METHOD(" ++ macroArgument m.returnType ++ ", " ++ m.name ++ ", (" ++
    ", ".intercalate (m.effective.map fun p => macroArgument p.type) ++ "), (" ++
    m.specifierList ++ "))"

/-- The definition of a mock class. Its destructor overrides one only where
the class has a virtual one. -/
def classLines (c : ClassDecl) : List String :=
  ["class " ++ c.mockName ++ " : public " ++ c.name, "\x7b", "public:",
    "    " ++ c.mockName ++ "();"] ++
    (if c.virtualMethods.isEmpty then ["    ~" ++ c.mockName ++ "();"]
      else ["    ~" ++ c.mockName ++ "() override;", ""]) ++
    c.virtualMethods.map (fun m => "    " ++ mockMacro m ++ ";") ++ ["\x7d;"]

/-- The lines of the file. -/
def lines (h : Header) : List String :=
  banner h ++ ["#pragma once", "", "#include <gmock/gmock.h>", "",
    "#include \"" ++ h.name ++ "\""] ++ classBlocks h classLines

/-- The text of the file. -/
def text (h : Header) : String := Text.unlines (lines h)

end Scaffold.Artifact.MockHeader
