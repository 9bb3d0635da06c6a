import Scaffold.Artifact.Layout

/-!
# The interface header

A header with the name of the described one that declares its top-level
classes and nothing else, so that a mock can be compiled in its place. Every
virtual method is **pure**: the mock overrides each of them, and the class
never gets a key function of its own.
-/
namespace Scaffold.Artifact.InterfaceHeader

/-- The declaration of a method, without the semicolon. -/
def declaration (m : Method) : String :=
  let plain := m.returnType ++ " " ++ m.name ++ "(" ++ m.typedList ++ ")" ++ constWord m
  if m.isVirtual then "virtual " ++ plain ++ " = 0" else plain

/-- The definition of a class. -/
def classLines (c : ClassDecl) : List String :=
  ["class " ++ c.name, "\x7b", "public:"] ++
    (if c.virtualMethods.isEmpty then [] else ["    virtual ~" ++ c.name ++ "() = default;"]) ++
    c.methods.map (fun m => "    " ++ declaration m ++ ";") ++ ["\x7d;"]

/-- The include directives, after an empty line. -/
def includeLines (h : Header) : List String :=
  if h.includes.isEmpty then [] else "" :: h.includes.map fun i => "#include " ++ i.operand

/-- The lines of the file. -/
def lines (h : Header) : List String :=
  banner h ++ ["#pragma once"] ++ includeLines h ++ classBlocks h classLines

/-- The text of the file. -/
def text (h : Header) : String := Text.unlines (lines h)

end Scaffold.Artifact.InterfaceHeader
