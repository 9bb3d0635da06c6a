import Scaffold.Path

/-!
# Reports

What a run did, artifact by artifact and in order.
-/
namespace Scaffold

/-- What happened to an artifact. -/
inductive Outcome where
  /-- The file was written, over an old one if there was one. -/
  | written
  /-- The file was there already and was left alone. -/
  | skippedExists
  /-- The file is excluded and was not written. -/
  | skippedExcluded
  /-- A line was added to a build list. -/
  | appended
  /-- The build list had the line already. -/
  | unchanged
  deriving DecidableEq, Repr

namespace Outcome

/-- All outcomes. -/
def all : List Outcome := [.written, .skippedExists, .skippedExcluded, .appended, .unchanged]

/-- The run changed the file. -/
def modified : Outcome → Bool
  | .written | .appended => true
  | .skippedExists | .skippedExcluded | .unchanged => false

/-- The outcome in words. -/
def message : Outcome → String
  | .written => "wrote"
  | .skippedExists => "skipped: already exists"
  | .skippedExcluded => "skipped: excluded"
  | .appended => "appended"
  | .unchanged => "unchanged"

/-- The outcome as one word. -/
def name : Outcome → String
  | .written => "written"
  | .skippedExists => "skipped_exists"
  | .skippedExcluded => "skipped_excluded"
  | .appended => "appended"
  | .unchanged => "unchanged"

end Outcome

/-- A line of a report. -/
structure Record where
  /-- The artifact, by its path in the project. -/
  path : Path
  outcome : Outcome
  /-- More about it, such as the subdirectory that was declared. -/
  detail : Option String
  deriving DecidableEq, Repr

/-- What a run did, in order. -/
structure Report where
  records : List Record
  deriving DecidableEq, Repr

namespace Report

/-- The report of a run that did nothing. -/
def empty : Report := ⟨[]⟩

/-- Nothing is reported. -/
def isEmpty (r : Report) : Bool := r.records.isEmpty

/-- The report with one more line. -/
def add (r : Report) (record : Record) : Report := ⟨r.records ++ [record]⟩

/-- How often an outcome occurred. -/
def count (r : Report) (o : Outcome) : Nat := r.records.countP fun x => x.outcome == o

/-- How often a file was changed. -/
def modifiedCount (r : Report) : Nat := r.records.countP fun x => x.outcome.modified

/-- What happened to the artifact at a path, in order. -/
def outcomesFor (r : Report) (p : Path) : List Outcome :=
  (r.records.filter fun x => x.path.same p).map Record.outcome

end Report

end Scaffold
