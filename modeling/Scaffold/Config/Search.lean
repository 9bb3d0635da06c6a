import Scaffold.Config.Reader
import Scaffold.Job

/-!
# Finding settings

The settings of a project lie in the directory that work is done in, or in the
nearest one above it.
-/
namespace Scaffold.Config

/-- The settings in a file. -/
def load (file : Path) : Job Config := do
  let text ← Job.text file
  match read text with
  | some c => pure c
  | none => .fail (.config ("failed to parse '" ++ file.text ++ "'"))

/-- The first of the paths that is one of a file. -/
def firstFile : List Path → Job (Option Path)
  | [] => pure none
  | p :: ps => do
    if ← Job.isFile p then pure (some p) else firstFile ps

/-- The nearest settings file in a directory or above it. -/
def find (directory : Path) : Job (Option Path) := do
  let start ← Job.canonical directory
  firstFile (start.ancestors.map (·.child fileName))

/-- The nearest settings, and the root of the project they belong to. Settings
that are missing or cannot be read are the default ones. -/
def loadOrDefault (directory : Path) : Job (Config × Path) := do
  match ← find directory with
  | none => pure ({}, directory)
  | some file =>
    let root := file.parent?.getD directory
    match ← (load file).collect Report.empty with
    | (.ok c, _) => pure (c, root)
    | (.error _, _) => pure ({}, root)

end Scaffold.Config
