import Scaffold.Text.Utf8

/-!
# Contents of files

A file holds a text, or bytes that are no UTF-8 text. The two are kept apart,
so that **a text that was written is read back as it is**.
-/
namespace Scaffold

/-- What a file holds. -/
inductive Content where
  | text (t : String)
  /-- Bytes that are not UTF-8. -/
  | raw (bytes : List UInt8)
  deriving DecidableEq, Repr

namespace Content

/-- The content with the given bytes. -/
def ofBytes (bytes : ByteArray) : Content :=
  match String.fromUTF8? bytes with
  | some t => .text t
  | none => .raw bytes.toList

/-- The content as a text, with replacement characters where it is none. -/
def lenient : Content → String
  | .text t => t
  | .raw bytes => String.ofList (Text.decode bytes)

/-- The content with a text behind it. -/
def append : Content → String → Content
  | .text t, s => .text (t ++ s)
  | .raw bytes, s => .raw (bytes ++ s.toUTF8.toList)

end Content

end Scaffold
