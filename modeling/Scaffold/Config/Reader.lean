import Scaffold.Config
import Scaffold.Toml.Reader

/-!
# Reading settings

From the table of a settings file to the settings of a project. What a table
does not set keeps its default, and names that mean nothing are passed over. A
table may also be given as an array of its values **in the order of the
names**.
-/
namespace Scaffold.Config

open Toml (Value Table)

/-! ## 1. Values -/

/-- The text of a value. -/
def text? : Value → Option String
  | .text s => some s
  | _ => none

/-- The texts of an array. -/
def texts? : Value → Option (List String)
  | .array items => items.mapM text?
  | _ => none

/-- The value of the name that comes at the given place in an array; none
inside when there is no value, and none when no names can be looked up. -/
def field? (place : Nat) (name : String) : Value → Option (Option Value)
  | .table _ fields => some (fields.lookup name)
  | .array items => some items[place]?
  | .tables items => some items[place]?
  | .date => some none
  | .text _ | .number | .truth => none

/-- A value read by `f`, or the default. -/
def setOr {α : Type} (default : α) (f : Value → Option α) : Option Value → Option α
  | none => some default
  | some v => f v

/-! ## 2. Settings -/

/-- The settings with those of the table `project`. -/
def withProject (c : Config) (v : Value) : Option Config := do
  let sourceDir ← setOr c.sourceDir text? (← field? 0 "source_dir" v)
  let includeDir ← setOr c.includeDir text? (← field? 1 "include_dir" v)
  let entryPoint ← setOr c.entryPoint (fun v => (text? v).map some) (← field? 2 "entry_point" v)
  pure { c with sourceDir, includeDir, entryPoint }

/-- The settings with those of the table `generate`. -/
def withGenerate (c : Config) (v : Value) : Option Config := do
  let headerExtensions ← setOr c.headerExtensions texts? (← field? 0 "header_extensions" v)
  let sourceExtensions ← setOr c.sourceExtensions texts? (← field? 1 "source_extensions" v)
  let exclude ← setOr c.exclude texts? (← field? 2 "exclude" v)
  pure { c with headerExtensions, sourceExtensions, exclude }

/-- The settings of a table. -/
def ofTable (t : Table) : Option Config := do
  let c ← setOr {} (withProject {}) (t.get? "project")
  setOr c (withGenerate c) (t.get? "generate")

/-- The settings of a file; none when its text cannot be read. -/
def read (text : String) : Option Config := (Toml.read text).bind ofTable

end Scaffold.Config
