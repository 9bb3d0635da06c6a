import Scaffold.Json
import Scaffold.Report

/-!
# Reports as JSON

One object with the command, whether it succeeded, and the artifacts. The
error is there **exactly when** the command failed.
-/
namespace Scaffold.Report

/-- A line of a report. -/
def recordJson (r : Record) : Json :=
  .object <| [("path", .text r.path.text), ("outcome", .text r.outcome.name)] ++
    match r.detail with
    | some detail => [("detail", .text detail)]
    | none => []

/-- The report of a run of a command, with the error it ended in. -/
def json (command : String) (error : Option String) (r : Report) : Json :=
  .object <| [("command", .text command), ("success", .flag error.isNone)] ++
    (match error with
      | some message => [("error", .text message)]
      | none => []) ++
    [("written", .number r.modifiedCount), ("artifacts", .array (r.records.map recordJson))]

end Scaffold.Report
