import Scaffold.Command.Arguments
import Scaffold.Config.Search
import Scaffold.Report.Json
import Scaffold.Report.Text
import Scaffold.Tests

/-!
# Running a command

A whole run of the program as a job that never fails: what it prints, and the
code it exits with. **Nothing is printed on standard output before the project
is known**; after that a run in JSON always prints one object.
-/
namespace Scaffold.Command

/-! ## 1. What a run gives -/

/-- What a run prints, and its exit code. -/
structure Output where
  exitCode : Nat
  stdout : String
  stderr : String
  deriving DecidableEq, Repr

/-- The name of the program and its version. -/
def versionLine : String := "testgen 0.3.0\n"

/-- How the program is used. -/
def usage : String := Text.unlines
  ["Usage: testgen [OPTIONS] <COMMAND>",
   "",
   "Commands:",
   "  gen   Generate unit tests or mocks from headers",
   "  init  Create a default testgen.toml in the current directory",
   "",
   "Options of gen:",
   "      --unit-test <PATH>  Header or directory to generate unit tests for",
   "      --mock <HEADER>     Header to generate a mock for",
   "      --force             Overwrite existing unit tests",
   "",
   "Options of init:",
   "      --force             Overwrite existing config",
   "",
   "Options:",
   "  -c, --config <CONFIG>   Config file path",
   "      --format <FORMAT>   Output format for the generation report: text or json",
   "  -v, --verbose           Log every generation decision",
   "  -q, --quiet             Only log errors",
   "  -h, --help              Print help",
   "  -V, --version           Print version"]

/-- A run that ends in an error. -/
def failed (exitCode : Nat) (stdout message : String) : Output :=
  ⟨exitCode, stdout, "Error: " ++ message ++ "\n"⟩

/-- The exit code of a failure: 1 for the user's mistakes, and 2 else. -/
def exitCodeOf (f : Failure) : Nat := if f.isUserError then 1 else 2

/-- A failure with what caused it. -/
def withCause (f : Failure) : String :=
  match f with
  | .disk _ fault => f.message ++ ": " ++ fault.message
  | _ => f.message

/-! ## 2. Reports -/

/-- How reports are printed. -/
structure Style where
  json : Bool
  colors : Bool

/-- What is printed of a run with the given report, which may have ended in an
error. -/
def printed (s : Style) (command : String) (error : Option String) (r : Report) : String :=
  if s.json then (r.json command error).pretty ++ "\n"
  else if error.isSome && r.isEmpty then ""
  else r.text s.colors

/-- What a run of `gen` that did some work gives. -/
def genOutput (s : Style) : Except Failure Unit × Report → Output
  | (.ok _, r) => ⟨0, printed s "gen" none r, ""⟩
  | (.error f, r) =>
    failed (exitCodeOf f) (printed s "gen" (some f.message) r) (withCause f)

/-! ## 3. Commands -/

/-- The project with the given settings file, or the one that a directory is
in. -/
def loadProject (directory : Path) (config : Option String) : Job Project := do
  let (c, root) ← match config with
    | some file =>
      let file := directory.join (Path.ofText file)
      let c ← Config.load file
      let root ← Job.canonical (file.parent?.getD directory)
      pure (c, root)
    | none => Config.loadOrDefault directory
  Job.ofExcept (Project.make root c)

/-- Generates what is asked for. -/
def generate (P : Project) (directory : Path) (force : Bool) : Target → Job Unit
  | .unitTest path => Tests.generateTree P force (directory.join (Path.ofText path))
  | .mock header => do
    let _ ← Mocks.generate P (directory.join (Path.ofText header))

/-- Runs `gen`. -/
def runGen (s : Style) (directory : Path) (config : Option String) (force : Bool)
    (target : Target) : Job Output := do
  match ← (loadProject directory config).collect Report.empty with
  | (.error f, _) => pure (failed (exitCodeOf f) "" (withCause f))
  | (.ok P, _) =>
    let ended ← (generate P directory force target).collect Report.empty
    pure (genOutput s ended)

/-- Runs `init`. -/
def runInit (s : Style) (directory : Path) (force : Bool) : Job Output := do
  let file := directory.child Config.fileName
  if (← Job.exists file) && !force then
    pure (failed 1 "" (Config.fileName ++ " already exists. Use --force to overwrite."))
  else
    .ask (.write file Config.defaultText) fun
      | .error fault =>
        pure (failed 2 "" ("failed to write " ++ Config.fileName ++ ": " ++ fault.message))
      | .ok _ =>
        let report := Report.empty.add ⟨Path.ofText Config.fileName, .written, none⟩
        pure ⟨0, printed s "init" none report, ""⟩

/-- Runs what words ask for, in a directory. -/
def run (colors : Bool) (directory : Path) (words : List String) : Job Output :=
  match readWish words with
  | .error .nothing => pure ⟨2, "", usage⟩
  | .error .misfit => pure ⟨2, "", "error: invalid arguments\n\n" ++ usage⟩
  | .ok .version => pure ⟨0, versionLine, ""⟩
  | .ok .help => pure ⟨0, usage, ""⟩
  | .ok (.gen target force json config) => runGen ⟨json, colors⟩ directory config force target
  | .ok (.init force json) => runInit ⟨json, colors⟩ directory force

end Scaffold.Command
