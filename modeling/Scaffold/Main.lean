import Scaffold.Command.Run

/-!
# The program

The command line on the system's disk: every request of a job is one call of
the system. Nothing is decided here.
-/
namespace Scaffold

/-- Why the system refused something. -/
def faultOf : IO.Error → Fault
  | .noFileOrDirectory .. => .notFound
  | .alreadyExists .. => .alreadyExists
  | .inappropriateType _ 20 _ => .notDirectory
  | .inappropriateType _ 21 _ => .isDirectory
  | e => .other (toString e)

/-- The result of a call of the system, or why there is none. -/
def attempt {α : Type} (call : IO α) : IO (Except Fault α) := do
  try
    pure (.ok (← call))
  catch e => pure (.error (faultOf e))

/-- What the system says of a file. -/
def kindOf (m : IO.FS.Metadata) : EntryKind :=
  match m.type with
  | .dir => .directory
  | .symlink => .link
  | .file | .other => .file

/-- What the system answers a request. -/
def systemAnswer : (q : Request) → IO q.Reply
  | .kind p => do
    let file := (← IO.currentDir) / p.text
    let m ← attempt file.metadata
    pure (m.toOption.map kindOf)
  | .ownKind p => do
    let file := (← IO.currentDir) / p.text
    let m ← attempt file.symlinkMetadata
    pure (m.toOption.map kindOf)
  | .canonical p => do
    let file ← attempt (IO.FS.realPath p.text)
    pure (file.toOption.map fun f => Path.ofText f.toString)
  | .list p => do
    let file := (← IO.currentDir) / p.text
    attempt do
      let entries ← file.readDir
      entries.toList.mapM fun e => do
        pure (e.fileName, kindOf (← e.path.symlinkMetadata))
  | .read p => attempt (Content.ofBytes <$> IO.FS.readBinFile p.text)
  | .write p text => attempt (IO.FS.writeFile p.text text)
  | .append p text =>
    attempt (IO.FS.withFile p.text .append fun h => h.putStr text)
  | .makeDirs p => attempt (IO.FS.createDirAll p.text)

/-- Runs a job on the system's disk. What it reports is not kept. -/
def runOnSystem {α : Type} : Job α → IO (Except Failure α)
  | .done a => pure (.ok a)
  | .fail f => pure (.error f)
  | .note _ next => runOnSystem next
  | .ask q next => do
    let a ← systemAnswer q
    runOnSystem (next a)

/-- Prints what a run gives. -/
def printOutput (o : Command.Output) : IO UInt32 := do
  IO.print o.stdout
  IO.eprint o.stderr
  pure o.exitCode.toUInt32

end Scaffold

/-- Runs the command line. Colours are for terminals. -/
def main (words : List String) : IO UInt32 := do
  let here ← IO.FS.realPath (← IO.currentDir)
  let plain := (← IO.getEnv "NO_COLOR").isSome
  let terminal ← (← IO.getStdout).isTty
  let job := Scaffold.Command.run (terminal && !plain) (Scaffold.Path.ofText here.toString) words
  match ← Scaffold.runOnSystem job with
  | .ok o => Scaffold.printOutput o
  | .error f => Scaffold.printOutput (Scaffold.Command.failed 2 "" f.message)
