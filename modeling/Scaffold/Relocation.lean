import Scaffold.Failure

/-!
# From the source tree to the test trees

A test or a mock lies where its source lies, with **the first step that names
the source directory replaced** by the directory of the tests or the mocks.
-/
namespace Scaffold

namespace Path

/-- The steps behind `done`, with the first one named `sourceDir` replaced by
`target`; none when there is no such step. -/
def relocateFrom (sourceDir : String) (target done : Path) : List Component → Option Path
  | [] => none
  | c :: cs =>
    if c == .name sourceDir then some ((done.join target).walk cs)
    else relocateFrom sourceDir target (done.step c) cs

end Path

/-- The place in another tree that belongs to a path of the source tree. -/
def relocate (p : Path) (sourceDir : String) (target : Path) : Except Failure Path :=
  match Path.relocateFrom sourceDir target Path.empty p.components with
  | some q => .ok q
  | none => .error (.outsideSourceTree p sourceDir)

end Scaffold
