import Scaffold.BuildTree
import Scaffold.Cpp.Describe

/-!
# Generating mocks

A mock of a header is three files in the tree of mocks: the mock header, the
mock source, and a copy of the header's interface. The copy is written last
and **marks the header as mocked**: while it is there, nothing is written.
Where the copy is excluded, mock files that exist are kept instead.
-/
namespace Scaffold

/-- The description of a header on the disk. Bytes that are no text do not
matter. -/
def describeHeader (file : Path) : Job Header := do
  let content ← Job.read file
  pure (Cpp.describe (file.fileName?.getD "") content.lenient)

namespace Mocks

/-- Writes one file of a mock, unless it is excluded or to be kept. Says
whether it was written. -/
def writeOne (P : Project) (keepsExisting : Bool) (parameters : Artifact.Parameters)
    (artifact : Artifact) (file : Path) : Job Bool := do
  if P.excludes file then
    Job.report file .skippedExcluded none
    pure false
  else if ← (if keepsExisting then Job.exists (P.absolute file) else pure false) then
    Job.report file .skippedExists none
    pure false
  else
    writeArtifact artifact (P.absolute file) parameters
    Job.report file .written none
    pure true

/-- Writes the files of a mock in order. Says whether one was written. -/
def writeAll (P : Project) (keepsExisting : Bool) (parameters : Artifact.Parameters) :
    List (Artifact × Path) → Job Bool
  | [] => pure false
  | (artifact, file) :: rest => do
    let wrote ← writeOne P keepsExisting parameters artifact file
    let more ← writeAll P keepsExisting parameters rest
    pure (wrote || more)

/-- The files of the mock of a header, whose marker lies at the given path. -/
def files (h : Header) (marker : Path) : List (Artifact × Path) :=
  [(.mockHeader, marker.withFileName ("mock_" ++ h.name)),
   (.mockSource, marker.withFileName ("mock_" ++ h.stem ++ ".cpp")),
   (.interfaceHeader, marker)]

/-- Generates the mock of a header. Says whether a file was written. -/
def generate (P : Project) (header : Path) : Job Bool := do
  let rel ← P.relative header
  if !P.isHeader rel then .fail (P.notHeader rel)
  else
    let marker ← Job.ofExcept (relocate rel P.config.sourceDir mocksDir)
    if ← Job.exists (P.absolute marker) then
      Job.report marker .skippedExists none
      pure false
    else if !(← Job.isFile (P.absolute rel)) then .fail (.notFound rel)
    else
      let h ← describeHeader (P.absolute rel)
      writeAll P (P.excludes marker) (.header h (P.includeSpelling rel)) (files h marker)

end Mocks

end Scaffold
