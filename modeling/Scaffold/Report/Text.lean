import Scaffold.Report

/-!
# Reports as text

One line per artifact, and a summary. The words may be coloured for a
terminal.
-/
namespace Scaffold.Report

/-- How a word is set off from the text around it. -/
inductive Style where
  | boldGreen | green | yellow | dim | bold
  deriving DecidableEq, Repr

/-- The terminal's code for a style. -/
def Style.code : Style → String
  | .boldGreen => "1;32"
  | .green => "32"
  | .yellow => "33"
  | .dim => "2"
  | .bold => "1"

/-- A word in a style, on a terminal that has `colors`. -/
def styled (colors : Bool) (s : Style) (word : String) : String :=
  if colors then "\x1b[" ++ s.code ++ "m" ++ word ++ "\x1b[0m" else word

/-- The style of an outcome. -/
def styleOf : Outcome → Style
  | .written => .boldGreen
  | .appended => .green
  | .skippedExists | .skippedExcluded => .yellow
  | .unchanged => .dim

/-- The line of an artifact. -/
def recordLine (colors : Bool) (r : Record) : String :=
  styled colors (styleOf r.outcome) r.outcome.message ++ " " ++ r.path.text ++
    (match r.detail with
      | some detail => " (" ++ detail ++ ")"
      | none => "") ++ "\n"

/-- How often files were written, and how often lines were added or files
skipped if that happened at all. -/
def tallies (r : Report) : List String :=
  let appended := r.count .appended
  let skipped := r.count .skippedExists + r.count .skippedExcluded
  [toString (r.count .written) ++ " written"] ++
    (if appended > 0 then [toString appended ++ " appended"] else []) ++
    (if skipped > 0 then [toString skipped ++ " skipped"] else [])

/-- The last lines of a report. -/
def summary (colors : Bool) (r : Report) : String :=
  if r.isEmpty then styled colors .dim "Nothing to generate." ++ "\n"
  else "\n" ++ styled colors .bold "Summary" ++ ": " ++ ", ".intercalate r.tallies ++ "\n"

/-- The report as text. -/
def text (colors : Bool) (r : Report) : String :=
  String.join (r.records.map (recordLine colors)) ++ summary colors r

end Scaffold.Report
