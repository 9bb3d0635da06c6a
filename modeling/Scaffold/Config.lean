import Scaffold.Text.Blank

/-!
# Settings

What a project may set, and what holds where it sets nothing.
-/
namespace Scaffold

/-- The settings of a project. -/
structure Config where
  /-- The directory that holds the sources. -/
  sourceDir : String := "src"
  /-- The include directory inside the source directory. -/
  includeDir : String := "include"
  /-- The source that holds the main function; no test links it. -/
  entryPoint : Option String := none
  headerExtensions : List String := ["h", "hpp"]
  sourceExtensions : List String := ["c", "cpp"]
  /-- Patterns of files that are never written. -/
  exclude : List String := []
  deriving DecidableEq, Repr

namespace Config

/-- The name of the file with the settings. -/
def fileName : String := "testgen.toml"

/-- The text of a file that sets what holds anyway. -/
def defaultText : String := Text.unlines
  ["# testgen - test scaffolding configuration",
   "",
   "[project]",
   "# Directory holding the sources, relative to this file",
   "source_dir = \"src\"",
   "# Include directory inside source_dir",
   "include_dir = \"include\"",
   "# Source file holding main(); excluded from unit-test builds",
   "# entry_point = \"main.cpp\"",
   "",
   "[generate]",
   "header_extensions = [\"h\", \"hpp\"]",
   "source_extensions = [\"c\", \"cpp\"]",
   "# Generated files matching these globs are never written",
   "# exclude = [\"tests/ut/CMakeLists.txt\"]",
   "exclude = []"]

end Config

end Scaffold
