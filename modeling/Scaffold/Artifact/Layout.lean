import Scaffold.Header

/-!
# What generated files have in common

A generated file is a list of lines. Here are the pieces that several kinds of
files share: the banner, and the namespaces around a class.
-/
namespace Scaffold.Artifact

/-- The first lines of every file that is made from a header. -/
def banner (h : Header) : List String := ["// Generated by testgen from " ++ h.name ++ ".", ""]

/-- Lines inside the namespaces of a class, opened outermost first and closed
in reverse. -/
def insideNamespaces (c : ClassDecl) (body : List String) : List String :=
  if c.namespaces.isEmpty then body
  else
    c.namespaces.map (fun n => "namespace " ++ n ++ " \x7b") ++ "" :: body ++
      "" :: c.namespaces.reverse.map fun n => "\x7d  // namespace " ++ n

/-- The lines for each top-level class of a header, after an empty line and
inside its namespaces. -/
def classBlocks (h : Header) (body : ClassDecl → List String) : List String :=
  h.topLevel.flatMap fun c => "" :: insideNamespaces c (body c)

/-- What a `const` method has behind its parameters. -/
def constWord (m : Method) : String := if m.isConst then " const" else ""

end Scaffold.Artifact
