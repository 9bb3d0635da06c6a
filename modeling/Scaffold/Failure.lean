import Scaffold.Path
import Scaffold.Artifact

/-!
# What can go wrong

* `Fault` -- why the disk refused something, in the system's own words;
* `Failure` -- why a piece of work stopped, with `message` for its wording;
* `Failure.isUserError` -- the failures that are **mistakes in what was asked
  for**, and not in the surroundings.
-/
namespace Scaffold

/-- Why the disk refused something. -/
inductive Fault where
  | notFound
  | alreadyExists
  | notDirectory
  | isDirectory
  | tooManyLinks
  /-- The bytes of a file are not UTF-8 text. -/
  | notText
  /-- Anything else, in words. -/
  | other (message : String)
  deriving DecidableEq, Repr

/-- The wording of a refusal. -/
def Fault.message : Fault → String
  | .notFound => "No such file or directory (os error 2)"
  | .alreadyExists => "File exists (os error 17)"
  | .notDirectory => "Not a directory (os error 20)"
  | .isDirectory => "Is a directory (os error 21)"
  | .tooManyLinks => "Too many levels of symbolic links (os error 40)"
  | .notText => "stream did not contain valid UTF-8"
  | .other message => message

/-- Why a piece of work stopped. -/
inductive Failure where
  | notHeader (path : Path) (expected : List String)
  | outsideSourceTree (path : Path) (sourceDir : String)
  | outsideTestTree (path testRoot : Path)
  | notFound (path : Path)
  | parse (path : Path) (message : String)
  | render (artifact : Artifact) (message : String)
  | config (message : String)
  | disk (path : Path) (fault : Fault)
  deriving DecidableEq, Repr

namespace Failure

/-- The wording of a failure. -/
def message : Failure → String
  | .notHeader path expected =>
    "not a header file: '" ++ path.text ++ "' (expected one of: " ++
      ", ".intercalate expected ++ ")"
  | .outsideSourceTree path sourceDir =>
    "'" ++ path.text ++ "' is outside the source directory '" ++ sourceDir ++ "'"
  | .outsideTestTree path testRoot =>
    "'" ++ path.text ++ "' is not inside the test root '" ++ testRoot.text ++ "'"
  | .notFound path => "no such file or directory: '" ++ path.text ++ "'"
  | .parse path message => "failed to parse '" ++ path.text ++ "': " ++ message
  | .render artifact message =>
    "template '" ++ artifact.id ++ "' cannot be rendered: " ++ message
  | .config message => "invalid configuration: " ++ message
  | .disk path fault => "I/O error on '" ++ path.text ++ "': " ++ fault.message

/-- The failure is a mistake in what was asked for. -/
def isUserError : Failure → Bool
  | .notHeader .. | .outsideSourceTree .. | .outsideTestTree .. | .notFound _ | .config _ => true
  | .parse .. | .render .. | .disk .. => false

end Failure

end Scaffold
