import Scaffold.Artifact.BuildList
import Scaffold.Artifact.InterfaceHeader
import Scaffold.Artifact.MockHeader
import Scaffold.Artifact.MockSource
import Scaffold.Artifact.UnitTest
import Scaffold.Failure

/-!
# Writing any artifact

`render` writes an artifact of any kind from its parameters, and refuses
parameters of the wrong kind.
-/
namespace Scaffold.Artifact

/-- What an artifact is written from. -/
inductive Parameters where
  /-- A header, and how a test includes it. -/
  | header (h : Header) (spelling : String)
  /-- What a test directory builds. -/
  | buildList (b : BuildList)
  deriving Repr

/-- The text of an artifact. -/
def render : Artifact → Parameters → Except Failure String
  | .interfaceHeader, .header h _ => .ok (InterfaceHeader.text h)
  | .mockHeader, .header h _ => .ok (MockHeader.text h)
  | .mockSource, .header h _ => .ok (MockSource.text h)
  | .unitTest, .header h spelling => .ok (UnitTest.text h spelling)
  | .buildList, .buildList b => .ok b.text
  | artifact, _ => .error (.render artifact "parameters do not match the template")

end Scaffold.Artifact
