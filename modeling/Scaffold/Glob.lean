/-!
# Glob patterns

Patterns for the texts of paths, read byte by byte.

* `Expr` -- what a pattern means: which byte sequences it matches;
* `Token` and `read` -- how a pattern is written: `?` is any byte, `*` any
  bytes (**slashes included**), `**` between slashes any directories, `[a-z]`
  and `[!a-z]` a byte of a set or none of it, `\x7ba,b\x7d` alternatives, and
  a backslash takes the meaning from what follows it;
* `Glob.matches` -- the texts a written pattern matches.
-/
namespace Scaffold

namespace Glob

/-! ## 1. Meaning -/

/-- A set of byte sequences. -/
inductive Expr where
  /-- Nothing. -/
  | empty
  /-- One byte between two bounds, or one that is between none of them. -/
  | set (negated : Bool) (ranges : List (UInt8 × UInt8))
  /-- Any bytes. -/
  | run
  /-- One after the other. -/
  | seq (a b : Expr)
  /-- Either. -/
  | or (a b : Expr)
  deriving DecidableEq, Repr

namespace Expr

/-- The ends of a list, from the whole list down to the empty one. -/
def tails : List UInt8 → List (List UInt8)
  | [] => [[]]
  | b :: bs => (b :: bs) :: tails bs

/-- What is left of the bytes after each match at their beginning. -/
def rests : Expr → List UInt8 → List (List UInt8)
  | empty, bs => [bs]
  | set _ _, [] => []
  | set negated ranges, b :: bs =>
    if (ranges.any fun r => decide (r.1 ≤ b) && decide (b ≤ r.2)) != negated then [bs] else []
  | run, bs => tails bs
  | seq a b, bs => (((rests a bs).eraseDups).flatMap (rests b)).eraseDups
  | or a b, bs => rests a bs ++ rests b bs

/-- The bytes are a match from beginning to end. -/
def accepts (e : Expr) (bs : List UInt8) : Bool := (rests e bs).contains []

/-- The byte itself. -/
def byte (b : UInt8) : Expr := set false [(b, b)]

/-- One expression after another, where an empty one leaves no trace. -/
def andThen (a b : Expr) : Expr :=
  if a == empty then b else if b == empty then a else seq a b

/-- Either of the expressions that are not empty. -/
def oneOf : List Expr → Expr
  | [] => empty
  | e :: es =>
    if e == empty then oneOf es
    else match oneOf es with
      | .empty => e
      | rest => or e rest

/-- The bytes of a character. -/
def char (c : Char) : Expr :=
  ((c.toString.toUTF8.toList).map byte).foldr andThen empty

/-- A slash. -/
def slash : Expr := byte 0x2F

end Expr

/-! ## 2. Tokens -/

/-- A part of a written pattern. -/
inductive Token where
  | literal (c : Char)
  | any
  | run
  /-- A `**` at the beginning: nothing, a slash, or directories. -/
  | dirs
  /-- A `**` at the end: something below a directory. -/
  | below
  /-- A `**` in between: a slash, or directories between two slashes. -/
  | between
  | set (negated : Bool) (ranges : List (Char × Char))
  /-- Alternatives. -/
  | group (e : Expr)
  deriving DecidableEq, Repr

/-- The bytes of a character. -/
def bytes (c : Char) : List UInt8 := c.toString.toUTF8.toList

/-- The ranges of bytes that a range of characters is read as: a range from
the last byte of its first character to the first byte of its last. -/
def byteRanges (r : Char × Char) : List (UInt8 × UInt8) :=
  if r.1 == r.2 then (bytes r.1).map fun b => (b, b)
  else
    let before := (bytes r.1).dropLast.map fun b => (b, b)
    let after := ((bytes r.2).drop 1).map fun b => (b, b)
    match (bytes r.1).getLast?, (bytes r.2).head? with
    | some lo, some hi => before ++ (lo, hi) :: after
    | _, _ => []

/-- What a token means. -/
def Token.expr : Token → Expr
  | literal c => Expr.char c
  | any => .set true []
  | run => .run
  | dirs => .or (.or .empty .slash) (.seq .run .slash)
  | below => .seq .slash .run
  | between => .or .slash (.seq .slash (.seq .run .slash))
  | set negated ranges => .set negated (ranges.flatMap byteRanges)
  | group e => e

/-- What a row of tokens means. -/
def rowExpr (ts : List Token) : Expr := (ts.map Token.expr).foldr Expr.andThen .empty

/-! ## 3. Reading -/

/-- Why a pattern cannot be read. -/
inductive Fault where
  | unclosedSet
  | invalidRange (lo hi : Char)
  | unopenedGroup
  | unclosedGroup
  | danglingEscape
  deriving DecidableEq, Repr

/-- The wording of a fault. -/
def Fault.message : Fault → String
  | .unclosedSet => "unclosed character class; missing ']'"
  | .invalidRange lo hi =>
    "invalid range; '" ++ lo.toString ++ "' > '" ++ hi.toString ++ "'"
  | .unopenedGroup =>
    "unopened alternate group; missing '\x7b' (maybe escape '\x7d' with '[\x7d]'?)"
  | .unclosedGroup =>
    "unclosed alternate group; missing '\x7d' (maybe escape '\x7b' with '[\x7b]'?)"
  | .danglingEscape => "dangling '\\'"

/-- A set being read. -/
structure OpenSet where
  negated : Bool
  /-- The ranges so far, the latest first. -/
  ranges : List (Char × Char)
  /-- Nothing has been read yet. -/
  first : Bool
  /-- A hyphen has just been read that may join two characters. -/
  joining : Bool

/-- What has been read of a pattern. The rows hold their tokens in reverse. -/
structure Reader where
  /-- The row being read. -/
  row : List Token
  /-- The groups being read, innermost first: their earlier alternatives, in
  reverse, and the row they stand in. -/
  groups : List (List (List Token) × List Token)
  deriving Repr

namespace Reader

/-- With one more token. -/
def push (r : Reader) (t : Token) : Reader := { r with row := t :: r.row }

/-- With the beginning of a group. -/
def openGroup (r : Reader) : Reader := ⟨[], ([], r.row) :: r.groups⟩

/-- With the beginning of another alternative; outside groups, a comma. -/
def comma (r : Reader) : Reader :=
  match r.groups with
  | [] => r.push (.literal ',')
  | (alternatives, outer) :: groups => ⟨[], (r.row :: alternatives, outer) :: groups⟩

/-- With the end of a group. -/
def closeGroup (r : Reader) : Except Fault Reader :=
  match r.groups with
  | [] => .error .unopenedGroup
  | (alternatives, outer) :: groups =>
    let rows := (r.row :: alternatives).reverse.map fun row => rowExpr row.reverse
    .ok ⟨.group (Expr.oneOf rows) :: outer, groups⟩

/-- With a `**` that stands between `before` and `after` and is no mere pair of
stars: directories take the place of the slash in front of them. -/
def directories (r : Reader) (last : Bool) : Reader :=
  match r.row with
  | .dirs :: row => { r with row := .dirs :: row }
  | .below :: row => { r with row := .below :: row }
  | _ :: row => { r with row := (if last then .below else .between) :: row }
  | [] => r

end Reader

/-- What a `**` stands for. -/
inductive Stars where
  /-- Two stars. -/
  | pair
  /-- Any directories at the beginning. -/
  | leading
  /-- Something below what comes before. -/
  | trailing
  /-- Any directories between two slashes. -/
  | inner
  deriving DecidableEq, Repr

/-- What a `**` stands for, behind the character `before` and in front of
`after`. -/
def stars (r : Reader) (before after : Option Char) : Stars :=
  if r.row.isEmpty then
    if after == none || after == some '/' then .leading else .pair
  else if before != some '/' &&
      (r.groups.isEmpty || (before != some ',' && before != some '\x7b')) then .pair
  else if after == none then .trailing
  else if after == some '/' then .inner
  else if (after == some ',' || after == some '\x7d') && !r.groups.isEmpty then .trailing
  else .pair

/-- The set with the end of a range; the range may turn out empty. -/
def OpenSet.join (s : OpenSet) (c : Char) : Except Fault OpenSet :=
  match s.ranges with
  | [] => .ok ⟨s.negated, [(c, c)], false, false⟩
  | (lo, _) :: ranges =>
    if c < lo then .error (.invalidRange lo c)
    else .ok ⟨s.negated, (lo, c) :: ranges, false, false⟩

/-- The set with one more character; none when the character ends it. -/
def OpenSet.add (s : OpenSet) (c : Char) : Except Fault (Option OpenSet) :=
  if c == ']' && !s.first then .ok none
  else if s.joining then some <$> s.join c
  else if c == '-' && !s.first then .ok (some { s with joining := true })
  else .ok (some ⟨s.negated, (c, c) :: s.ranges, false, false⟩)

/-- The token of a set that has ended. -/
def OpenSet.token (s : OpenSet) : Token :=
  .set s.negated (if s.joining then s.ranges.reverse ++ [('-', '-')] else s.ranges.reverse)

mutual

/-- Reads a pattern on, behind the character `before`. -/
def read (r : Reader) (before : Option Char) : List Char → Except Fault Reader
  | [] => .ok r
  | '?' :: cs => read (r.push .any) (some '?') cs
  | '*' :: '*' :: cs =>
    match stars r before cs.head? with
    | .pair => read ((r.push .run).push .run) (some '*') cs
    | .leading => readSkipping (r.push .dirs) (some '*') cs
    | .trailing => read (r.directories true) (some '*') cs
    | .inner => readSkipping (r.directories false) (some '*') cs
  | '*' :: cs => read (r.push .run) (some '*') cs
  | '[' :: '!' :: cs => readSet r ⟨true, [], true, false⟩ cs
  | '[' :: '^' :: cs => readSet r ⟨true, [], true, false⟩ cs
  | '[' :: cs => readSet r ⟨false, [], true, false⟩ cs
  | '\x7b' :: cs => read r.openGroup (some '\x7b') cs
  | '\x7d' :: cs =>
    match r.closeGroup with
    | .ok r => read r (some '\x7d') cs
    | .error e => .error e
  | ',' :: cs => read r.comma (some ',') cs
  | ['\\'] => .error .danglingEscape
  | '\\' :: c :: cs => read (r.push (.literal c)) (some c) cs
  | c :: cs => read (r.push (.literal c)) (some c) cs

/-- The same without the slash that comes next. -/
def readSkipping (r : Reader) (before : Option Char) : List Char → Except Fault Reader
  | '/' :: cs => read r (some '/') cs
  | [] => .ok r
  | c :: cs => read (r.push (.literal c)) before cs

/-- The same inside a set. -/
def readSet (r : Reader) (s : OpenSet) : List Char → Except Fault Reader
  | [] => .error .unclosedSet
  | c :: cs =>
    match s.add c with
    | .ok (some s) => readSet r s cs
    | .ok none => read (r.push s.token) (some ']') cs
    | .error e => .error e

end

end Glob

/-! ## 4. Patterns -/

/-- A pattern that has been read. -/
structure Glob where
  tokens : List Glob.Token
  deriving DecidableEq, Repr

namespace Glob

/-- The pattern with the given text. -/
def ofText (text : String) : Except Fault Glob :=
  match read ⟨[], []⟩ none text.toList with
  | .error e => .error e
  | .ok r => if r.groups.isEmpty then .ok ⟨r.row.reverse⟩ else .error .unclosedGroup

/-- A token for just one character. -/
def Token.isLiteral : Token → Bool
  | .literal _ => true
  | _ => false

/-- The pattern is decided by the name at the end of a path: it asks for a
name, or for an extension, and not just for an end of the text. -/
def readsName (ts : List Token) : Bool :=
  match ts with
  | .dirs :: .run :: rest | .run :: rest => rest == [.literal '.'] || !rest.all Token.isLiteral
  | .dirs :: rest => !rest.contains (.literal '/') || !rest.all Token.isLiteral
  | _ => !ts.all Token.isLiteral

/-- What the pattern means. A lone `**` matches everything. -/
def expr (g : Glob) : Expr := if g.tokens == [.dirs] then .run else rowExpr g.tokens

/-- The pattern matches the text of a path. A text that ends in a dot has no
name at its end, so a pattern that reads a name ending in a dot matches none. -/
def «matches» (g : Glob) (text : String) : Bool :=
  g.expr.accepts text.toUTF8.toList &&
    !(g.tokens.getLast? == some (.literal '.') && readsName g.tokens)

end Glob

end Scaffold
