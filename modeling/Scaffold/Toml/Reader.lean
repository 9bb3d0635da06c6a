import Scaffold.Toml.Scalar
import Scaffold.Toml.Table

/-!
# Settings files: reading

From the text of a settings file to its table: the text is read as a list of
statements, and `assemble` makes the table of them.
-/
namespace Scaffold.Toml

/-! ## 1. Paths of names -/

/-- The names of a dotted name after the first, and what follows. -/
def moreNames : Nat → List Char → Option (List String × List Char)
  | 0, _ => none
  | n + 1, cs =>
    match cs.dropWhile isGap with
    | '.' :: cs => do
      let (first, cs) ← name (cs.dropWhile isGap)
      let (rest, cs) ← moreNames n cs
      pure (String.ofList first :: rest, cs)
    | cs => some ([], cs)

/-- A dotted name, and what follows it and the blanks after it. -/
def path (cs : List Char) : Option (List String × List Char) := do
  let (first, cs) ← name cs
  let (rest, cs) ← moreNames (cs.length + 1) cs
  pure (String.ofList first :: rest, cs)

/-! ## 2. Values -/

/-- A character of a bare word. -/
def isWordChar (c : Char) : Bool :=
  c.isAlphanum || c == '+' || c == '-' || c == '_' || c == '.' || c == ':'

/-- The value of a bare word. -/
def wordValue? (cs : List Char) : Option Value :=
  if cs == "true".toList || cs == "false".toList then some .truth
  else if isNumber cs then some .number
  else if isDate cs then some .date
  else none

/-- A bare word that is a value. A time may stand behind a date and a space. -/
def word (cs : List Char) : Option (Value × List Char) :=
  let first := cs.takeWhile isWordChar
  let rest := cs.dropWhile isWordChar
  let dated : Option (List Char) :=
    match afterDate first, rest with
    | some [], ' ' :: c :: cs =>
      if c.isDigit then some (first ++ ' ' :: (c :: cs).takeWhile isWordChar) else none
    | _, _ => none
  match dated with
  | some both => (wordValue? both).map fun v => (v, cs.drop both.length)
  | none => (wordValue? first).map fun v => (v, rest)

mutual

/-- A value, and what follows it. The number bounds how deep values nest. -/
def value : Nat → List Char → Option (Value × List Char)
  | 0, _ => none
  | n + 1, cs =>
    match cs with
    | '"' :: _ | '\x27' :: _ => (text cs).map fun (t, rest) => (.text (String.ofList t), rest)
    | '[' :: cs => (items n cs).map fun (vs, rest) => (.array vs, rest)
    | '\x7b' :: cs => do
      let (assignments, rest) ← fields n cs
      let t ← assignments.foldlM (fun (t : Table) (p, v) => t.assignAt p v) ⟨.inline, []⟩
      pure (.table .inline t.fields, rest)
    | cs => word cs

/-- The values of an array up to its end. -/
def items : Nat → List Char → Option (List Value × List Char)
  | 0, _ => none
  | n + 1, cs => do
    match ← filler false cs with
    | ']' :: rest => some ([], rest)
    | cs =>
      let (v, rest) ← value n cs
      match ← filler false rest with
      | ',' :: rest =>
        let (vs, rest) ← items n rest
        pure (v :: vs, rest)
      | ']' :: rest => pure ([v], rest)
      | _ => none

/-- The assignments of a table between braces up to its end. -/
def fields : Nat → List Char → Option (List (List String × Value) × List Char)
  | 0, _ => none
  | n + 1, cs => do
    match ← filler false cs with
    | '\x7d' :: rest => some ([], rest)
    | cs =>
      let (p, rest) ← path cs
      match rest.dropWhile isGap with
      | '=' :: rest =>
        let (v, rest) ← value n (rest.dropWhile isGap)
        match ← filler false rest with
        | ',' :: rest =>
          let (fs, rest) ← fields n rest
          pure ((p, v) :: fs, rest)
        | '\x7d' :: rest => pure ([(p, v)], rest)
        | _ => none
      | _ => none

end

/-! ## 3. Statements -/

/-- What follows the rest of a line, which holds at most a comment. -/
def restOfLine (cs : List Char) : Option (List Char) := do
  let cs ← match cs.dropWhile isGap with
    | '#' :: cs => comment cs
    | cs => some cs
  match cs with
  | [] => some []
  | cs => lineBreak cs

/-- A header up to its closing bracket. -/
def headerPath (cs : List Char) : Option (List String × List Char) := do
  let (p, cs) ← path (cs.dropWhile isGap)
  match cs.dropWhile isGap with
  | ']' :: cs => some (p, cs)
  | _ => none

/-- A statement, and what follows its line. -/
def statement (cs : List Char) : Option (Statement × List Char) :=
  match cs with
  | '[' :: '[' :: cs => do
    let (p, cs) ← headerPath cs
    pure (.item p, ← restOfLine (← behind? ']' cs))
  | '[' :: cs => do
    let (p, cs) ← headerPath cs
    pure (.table p, ← restOfLine cs)
  | cs => do
    let (p, rest) ← path cs
    match rest.dropWhile isGap with
    | '=' :: rest =>
      let (v, rest) ← value (rest.length + 1) (rest.dropWhile isGap)
      pure (.assign p v, ← restOfLine rest)
    | _ => none

/-- The statements of a text. -/
def statements : Nat → List Char → Option (List Statement)
  | 0, _ => none
  | n + 1, cs => do
    match ← filler false cs with
    | [] => some []
    | cs =>
      let (s, rest) ← statement cs
      let ss ← statements n rest
      pure (s :: ss)

/-- The table of a settings file; none when the text is not one. A byte order
mark in front is not part of the text. -/
def read (text : String) : Option Table :=
  let cs := match text.toList with
    | '\ufeff' :: cs => cs
    | cs => cs
  (statements (cs.length + 1) cs).bind assemble

end Scaffold.Toml
