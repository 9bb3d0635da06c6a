import Scaffold.Text.Identifier

/-!
# Tokens of a C++ text

The smallest parts of a C++ text, as the grammar looks at them.

* A **word** is any identifier or keyword; which of the two it is depends on
  the place, so the grammar decides.
* A **mark** is a single punctuation character; `::` is two marks with nothing
  between them, so the grammar joins what belongs together.
* A **directive** is a preprocessor directive with its name. Directives whose
  operands are not looked at span their whole line.
* Comments are tokens too, since they have a place in the syntax tree.

Every token keeps the blank space before it, so that the text of a run of
tokens can be told from the tokens alone.
-/
namespace Scaffold.Cpp

/-- What a token is. -/
inductive TokenClass where
  | word
  | number
  | string
  | character
  /-- One punctuation character. -/
  | mark
  /-- A preprocessor directive, by name. -/
  | directive (name : List Char)
  /-- The operand `<...>` of an include directive. -/
  | systemOperand
  /-- The operand `"..."` of an include directive. -/
  | quotedOperand
  /-- The operand of an include directive that is a macro or a macro call. -/
  | macroOperand
  | comment
  deriving DecidableEq, Repr

/-- A token with the blank space before it. -/
structure Token where
  sort : TokenClass
  lead : List Char
  text : List Char
  deriving DecidableEq, Repr

/-! ## 1. Blank space and comments -/

/-- The blank characters of C++ texts. -/
def isSpace (c : Char) : Bool :=
  (decide (0x9 ≤ c.toNat) && decide (c.toNat ≤ 0xD)) || c == ' '

/-- Splits the blank space off the front of a text. A backslash at the end of
a line counts as blank. -/
def splitSpace : List Char → List Char × List Char
  | '\\' :: '\n' :: cs =>
    let (a, b) := splitSpace cs
    ('\\' :: '\n' :: a, b)
  | '\\' :: '\r' :: '\n' :: cs =>
    let (a, b) := splitSpace cs
    ('\\' :: '\r' :: '\n' :: a, b)
  | c :: cs =>
    if isSpace c then
      let (a, b) := splitSpace cs
      (c :: a, b)
    else ([], c :: cs)
  | [] => ([], [])

/-- The rest of a line comment. A backslash takes the next character along,
so that it continues the comment on the next line. -/
def lineComment : List Char → List Char × List Char
  | '\n' :: cs => ([], '\n' :: cs)
  | '\\' :: '\r' :: '\n' :: cs =>
    let (a, b) := lineComment cs
    ('\\' :: '\r' :: '\n' :: a, b)
  | '\\' :: c :: cs =>
    let (a, b) := lineComment cs
    ('\\' :: c :: a, b)
  | c :: cs =>
    let (a, b) := lineComment cs
    (c :: a, b)
  | [] => ([], [])

/-- The rest of a block comment, with its end; none when it has no end. -/
def blockComment : List Char → Option (List Char × List Char)
  | '*' :: '/' :: cs => some (['*', '/'], cs)
  | c :: cs => (blockComment cs).map fun (a, b) => (c :: a, b)
  | [] => none

/-! ## 2. Literals -/

/-- The rest of a quoted literal, with its closing quote; none when the line
ends first. -/
def quotedRest (close : Char) : List Char → Option (List Char × List Char)
  | '\\' :: c :: cs => (quotedRest close cs).map fun (a, b) => ('\\' :: c :: a, b)
  | c :: cs =>
    if c == close then some ([c], cs)
    else if c == '\n' then none
    else (quotedRest close cs).map fun (a, b) => (c :: a, b)
  | [] => none

/-- The text up to and with the first occurrence of `close`. -/
def upTo (close : List Char) : List Char → Option (List Char × List Char)
  | [] => none
  | c :: cs =>
    if close.isPrefixOf (c :: cs) then some (close, (c :: cs).drop close.length)
    else (upTo close cs).map fun (a, b) => (c :: a, b)

/-- The rest of a raw string literal after its opening quote. -/
def rawRest (cs : List Char) : Option (List Char × List Char) :=
  let mark := cs.takeWhile fun c => c != '(' && c != '"' && c != '\n'
  match cs.drop mark.length with
  | '(' :: body =>
    (upTo (')' :: mark ++ ['"']) body).map fun (a, b) => (mark ++ '(' :: a, b)
  | _ => none

/-- The rest of a number: digits, letters, dots, digit separators, and a sign
after an exponent letter. -/
def numberRest : List Char → List Char × List Char
  | '\x27' :: c :: cs =>
    if c.isAlphanum then
      let (a, b) := numberRest cs
      ('\x27' :: c :: a, b)
    else ([], '\x27' :: c :: cs)
  | e :: s :: cs =>
    if (e == 'e' || e == 'E' || e == 'p' || e == 'P') && (s == '+' || s == '-') then
      let (a, b) := numberRest cs
      (e :: s :: a, b)
    else if e.isAlphanum || e == '.' || e == '_' then
      let (a, b) := numberRest (s :: cs)
      (e :: a, b)
    else ([], e :: s :: cs)
  | [c] => if c.isAlphanum || c == '.' || c == '_' then ([c], []) else ([], [c])
  | [] => ([], [])

/-- The letters that may stand before the quote of a literal. -/
def literalMarks : List (List Char) := [['L'], ['u'], ['U'], ['u', '8']]

/-- The letters that may stand before the quote of a raw string. -/
def rawMarks : List (List Char) := ['R'] :: literalMarks.map (· ++ ['R'])

/-- The literal that begins with the quote at the front of `cs`, after the
letters `mark`: its class, text and the rest. -/
def quoted (mark : List Char) : List Char → Option (TokenClass × List Char × List Char)
  | '"' :: cs =>
    let found :=
      if rawMarks.contains mark then rawRest cs
      else if mark.isEmpty || literalMarks.contains mark then quotedRest '"' cs
      else none
    found.map fun (a, b) =>
      let ending := b.takeWhile Text.isIdentifierPart
      let ending := if (ending.head?.map Text.isIdentifierStart).getD false then ending else []
      (.string, mark ++ '"' :: a ++ ending, b.drop ending.length)
  | '\x27' :: cs =>
    if mark.isEmpty || literalMarks.contains mark then
      (quotedRest '\x27' cs).map fun (a, b) => (.character, mark ++ '\x27' :: a, b)
    else none
  | _ => none

/-! ## 3. Directives -/

/-- The directives that span no more than their name; the tokens after it
belong to the grammar. -/
def shortDirectives : List String :=
  ["include", "ifdef", "ifndef", "elifdef", "elifndef", "else", "endif"]

/-- The rest of a directive's line. A backslash continues the line, and so
does a block comment that ends on a later line. -/
def directiveRest : Nat → List Char → List Char × List Char
  | 0, cs => ([], cs)
  | n + 1, cs =>
    match cs with
    | [] => ([], [])
    | '\n' :: cs => ([], '\n' :: cs)
    | '\r' :: '\n' :: cs => ([], '\r' :: '\n' :: cs)
    | '\\' :: '\n' :: cs =>
      let (a, b) := directiveRest n cs
      ('\\' :: '\n' :: a, b)
    | '\\' :: '\r' :: '\n' :: cs =>
      let (a, b) := directiveRest n cs
      ('\\' :: '\r' :: '\n' :: a, b)
    | '/' :: '*' :: cs =>
      match blockComment cs with
      | some (c, cs) =>
        let (a, b) := directiveRest n cs
        ('/' :: '*' :: c ++ a, b)
      | none =>
        let (a, b) := directiveRest n cs
        ('/' :: '*' :: a, b)
    | c :: cs =>
      let (a, b) := directiveRest n cs
      (c :: a, b)

/-- The directive that begins with the `#` before `cs`. -/
def directive (cs : List Char) : Option (TokenClass × List Char × List Char) :=
  let gap := cs.takeWhile fun c => c == ' ' || c == '\t'
  let rest := cs.drop gap.length
  let name := rest.takeWhile fun c => c.isAlphanum || c == '_'
  match name with
  | [] => none
  | '_' :: _ => none
  | _ =>
    let rest := rest.drop name.length
    let head := '#' :: gap ++ name
    if shortDirectives.contains (String.ofList name) then
      some (.directive name, head, rest)
    else
      let (line, rest) := directiveRest rest.length rest
      some (.directive name, head ++ line, rest)

/-- The parenthesised arguments at the front of a text, up to the matching
parenthesis on the same line. -/
def macroArguments (depth : Nat) : List Char → Option (List Char × List Char)
  | [] => none
  | '\n' :: _ => none
  | '(' :: cs => (macroArguments (depth + 1) cs).map fun (a, b) => ('(' :: a, b)
  | ')' :: cs =>
    match depth with
    | 0 => none
    | 1 => some ([')'], cs)
    | d + 1 => (macroArguments d cs).map fun (a, b) => (')' :: a, b)
  | c :: cs =>
    if depth == 0 && !isSpace c then none
    else (macroArguments depth cs).map fun (a, b) => (c :: a, b)

/-- The operand of an include directive at the front of a text. -/
def includeOperand : List Char → Option (TokenClass × List Char × List Char)
  | '<' :: cs =>
    let name := cs.takeWhile fun c => c != '>' && c != '\n'
    match cs.drop name.length with
    | '>' :: rest => some (.systemOperand, '<' :: name ++ ['>'], rest)
    | _ => none
  | '"' :: cs => (quotedRest '"' cs).map fun (a, b) => (.quotedOperand, '"' :: a, b)
  | c :: cs =>
    if Text.isIdentifierStart c then
      let name := c :: cs.takeWhile Text.isIdentifierPart
      let rest := (c :: cs).drop name.length
      match macroArguments 0 rest with
      | some (a, b) => some (.macroOperand, name ++ a, b)
      | none => some (.macroOperand, name, rest)
    else none
  | [] => none

/-! ## 4. Tokens -/

/-- The token at the front of a text that does not begin with a blank: its
class, its text and the rest. -/
def firstToken : List Char → TokenClass × List Char × List Char
  | [] => (.mark, [], [])
  | '/' :: '/' :: cs =>
    let (a, b) := lineComment cs
    (.comment, '/' :: '/' :: a, b)
  | c :: cs =>
    let single : TokenClass × List Char × List Char := (.mark, [c], cs)
    if c == '/' then
      match cs with
      | '*' :: cs =>
        ((blockComment cs).map fun (a, b) =>
          (TokenClass.comment, '/' :: '*' :: a, b)).getD single
      | _ => single
    else if c == '#' then (directive cs).getD single
    else if Text.isIdentifierStart c then
      let name := c :: cs.takeWhile Text.isIdentifierPart
      let rest := (c :: cs).drop name.length
      (quoted name rest).getD (.word, name, rest)
    else if c.isDigit then
      let (a, b) := numberRest cs
      (.number, c :: a, b)
    else if c == '.' then
      match cs with
      | d :: _ =>
        if d.isDigit then
          let (a, b) := numberRest cs
          (.number, c :: a, b)
        else single
      | [] => single
    else (quoted [] (c :: cs)).getD single

/-- The tokens of a text. `operand` tells that nothing but comments has been
read since an include directive, whose operand is read by rules of its own. -/
def tokensFrom : Nat → Bool → List Char → List Token
  | 0, _, _ => []
  | n + 1, operand, cs =>
    match splitSpace cs with
    | (_, []) => []
    | (lead, rest) =>
      let plain := firstToken rest
      let (sort, text, rest) :=
        if operand && !lead.contains '\n' then (includeOperand rest).getD plain else plain
      ⟨sort, lead, text⟩ ::
        tokensFrom n (sort == .directive ['i', 'n', 'c', 'l', 'u', 'd', 'e'] ||
          operand && sort == .comment) rest

/-- The tokens of a text. A byte order mark in front is not part of it. -/
def tokens (cs : List Char) : List Token :=
  match cs with
  | '\ufeff' :: cs => tokensFrom cs.length false cs
  | cs => tokensFrom cs.length false cs

end Scaffold.Cpp
