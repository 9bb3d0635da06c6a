/-!
# Settings files: texts, numbers and dates

The values of a settings file that have no parts, and the names.

* `quotedText` and its kin read a text in quotes, with what follows it;
* `isNumber` and `isDate` tell whether a bare word is one.
-/
namespace Scaffold.Toml

/-! ## 1. Blanks and comments -/

/-- A blank inside a line. -/
def isGap (c : Char) : Bool := c == ' ' || c == '\t'

/-- A character that may not stand in a comment or a text. -/
def isControl (c : Char) : Bool := (decide (c.toNat < 0x20) && c != '\t') || c.toNat == 0x7F

/-- The text without a line break at the front; none when there is none. -/
def lineBreak : List Char → Option (List Char)
  | '\n' :: cs => some cs
  | '\r' :: '\n' :: cs => some cs
  | _ => none

/-- The text from the end of the line on, when only a comment is left of it. -/
def comment : List Char → Option (List Char)
  | [] => some []
  | '\n' :: cs => some ('\n' :: cs)
  | '\r' :: '\n' :: cs => some ('\r' :: '\n' :: cs)
  | c :: cs => if isControl c then none else comment cs

/-- The text without blanks, line breaks and comments at the front. -/
def filler (inComment : Bool) : List Char → Option (List Char)
  | [] => some []
  | '\n' :: cs => filler false cs
  | '\r' :: '\n' :: cs => filler false cs
  | c :: cs =>
    if inComment then if isControl c then none else filler true cs
    else if isGap c then filler false cs
    else if c == '#' then filler true cs
    else some (c :: cs)

/-! ## 2. Texts -/

/-- The value of a hexadecimal digit. -/
def hexValue? (c : Char) : Option Nat :=
  if c.isDigit then some (c.toNat - 0x30)
  else if decide ('a' ≤ c) && decide (c ≤ 'f') then some (c.toNat - 0x57)
  else if decide ('A' ≤ c) && decide (c ≤ 'F') then some (c.toNat - 0x37)
  else none

/-- The character with a number given in hexadecimal digits. -/
def hexChar? (digits : List Char) : Option Char := do
  let n ← digits.foldlM (fun n d => (hexValue? d).map fun v => 16 * n + v) 0
  if n < 0xD800 || (0xDFFF < n && n < 0x110000) then some (Char.ofNat n) else none

/-- The character behind a backslash. -/
def escaped? : Char → Option Char
  | 'b' => some '\x08'
  | 't' => some '\t'
  | 'n' => some '\n'
  | 'f' => some '\x0c'
  | 'r' => some '\r'
  | 'e' => some '\x1b'
  | '"' => some '"'
  | '\\' => some '\\'
  | _ => none

/-- A text and what follows it, with one more character in front. -/
def withFirst (c : Option Char) (r : Option (List Char × List Char)) :
    Option (List Char × List Char) :=
  match c, r with
  | some c, some (a, b) => some (c :: a, b)
  | _, _ => none

/-- A text up to its closing quote. -/
def quotedText : List Char → Option (List Char × List Char)
  | '"' :: cs => some ([], cs)
  | '\\' :: 'x' :: a :: b :: cs => withFirst (hexChar? [a, b]) (quotedText cs)
  | '\\' :: 'u' :: a :: b :: c :: d :: cs => withFirst (hexChar? [a, b, c, d]) (quotedText cs)
  | '\\' :: 'U' :: a :: b :: c :: d :: e :: f :: g :: h :: cs =>
    withFirst (hexChar? [a, b, c, d, e, f, g, h]) (quotedText cs)
  | '\\' :: c :: cs => withFirst (escaped? c) (quotedText cs)
  | c :: cs => if isControl c then none else withFirst (some c) (quotedText cs)
  | [] => none

/-- A text without escapes up to its closing quote. -/
def plainText : List Char → Option (List Char × List Char)
  | '\x27' :: cs => some ([], cs)
  | c :: cs => if isControl c then none else withFirst (some c) (plainText cs)
  | [] => none

/-- Nothing but blanks is left of the line. -/
def endsLine : List Char → Bool
  | '\n' :: _ => true
  | '\r' :: '\n' :: _ => true
  | c :: cs => isGap c && endsLine cs
  | [] => false

/-- A text of many lines up to its closing quotes, which may follow two quotes
of the text itself. A backslash at the end of a line takes the blanks and line
breaks after it away. -/
def longQuotedText (joining : Bool) : List Char → Option (List Char × List Char)
  | '"' :: '"' :: '"' :: '"' :: '"' :: cs => some (['"', '"'], cs)
  | '"' :: '"' :: '"' :: '"' :: cs => some (['"'], cs)
  | '"' :: '"' :: '"' :: cs => some ([], cs)
  | '\n' :: cs =>
    if joining then longQuotedText true cs else withFirst (some '\n') (longQuotedText false cs)
  | '\r' :: '\n' :: cs =>
    if joining then longQuotedText true cs
    else withFirst (some '\r') (withFirst (some '\n') (longQuotedText false cs))
  | '\\' :: 'x' :: a :: b :: cs => withFirst (hexChar? [a, b]) (longQuotedText false cs)
  | '\\' :: 'u' :: a :: b :: c :: d :: cs =>
    withFirst (hexChar? [a, b, c, d]) (longQuotedText false cs)
  | '\\' :: 'U' :: a :: b :: c :: d :: e :: f :: g :: h :: cs =>
    withFirst (hexChar? [a, b, c, d, e, f, g, h]) (longQuotedText false cs)
  | '\\' :: c :: cs =>
    if endsLine (c :: cs) then longQuotedText true cs
    else withFirst (escaped? c) (longQuotedText false cs)
  | c :: cs =>
    if isGap c && joining then longQuotedText true cs
    else if isControl c then none
    else withFirst (some c) (longQuotedText false cs)
  | [] => none

/-- The same for a text without escapes. -/
def longPlainText : List Char → Option (List Char × List Char)
  | '\x27' :: '\x27' :: '\x27' :: '\x27' :: '\x27' :: cs => some (['\x27', '\x27'], cs)
  | '\x27' :: '\x27' :: '\x27' :: '\x27' :: cs => some (['\x27'], cs)
  | '\x27' :: '\x27' :: '\x27' :: cs => some ([], cs)
  | '\n' :: cs => withFirst (some '\n') (longPlainText cs)
  | '\r' :: '\n' :: cs => withFirst (some '\r') (withFirst (some '\n') (longPlainText cs))
  | c :: cs => if isControl c then none else withFirst (some c) (longPlainText cs)
  | [] => none

/-- A text in any of the four kinds of quotes. A line break right behind the
opening quotes of a long one does not count. -/
def text : List Char → Option (List Char × List Char)
  | '"' :: '"' :: '"' :: cs => longQuotedText false ((lineBreak cs).getD cs)
  | '"' :: cs => quotedText cs
  | '\x27' :: '\x27' :: '\x27' :: cs => longPlainText ((lineBreak cs).getD cs)
  | '\x27' :: cs => plainText cs
  | _ => none

/-! ## 3. Names -/

/-- A character of a bare name. -/
def isNameChar (c : Char) : Bool := c.isAlphanum || c == '_' || c == '-'

/-- A name, bare or in quotes, and what follows it. -/
def name (cs : List Char) : Option (List Char × List Char) :=
  match cs with
  | '"' :: cs => quotedText cs
  | '\x27' :: cs => plainText cs
  | cs =>
    match cs.takeWhile isNameChar with
    | [] => none
    | n => some (n, cs.dropWhile isNameChar)

/-! ## 4. Numbers -/

/-- What follows digits with underscores between them. -/
def digits (p : Char → Bool) (behindDigit : Bool) : List Char → Option (List Char)
  | [] => if behindDigit then some [] else none
  | c :: cs =>
    if p c then digits p true cs
    else if c == '_' && behindDigit then digits p false cs
    else if behindDigit then some (c :: cs)
    else none

/-- What follows a decimal number without a needless zero in front. -/
def wholePart (cs : List Char) : Option (List Char) :=
  match cs with
  | '0' :: c :: cs => if c.isDigit || c == '_' then none else some (c :: cs)
  | cs => digits Char.isDigit false cs

/-- A text without a sign at the front. -/
def dropSign : List Char → List Char
  | '+' :: cs => cs
  | '-' :: cs => cs
  | cs => cs

/-- The text is nothing, or an exponent. -/
def isExponent : List Char → Bool
  | [] => true
  | c :: cs => (c == 'e' || c == 'E') && digits Char.isDigit false (dropSign cs) == some []

/-- The word is a decimal number without a sign. -/
def isDecimal (cs : List Char) : Bool :=
  match wholePart cs with
  | none => false
  | some ('.' :: cs) =>
    match digits Char.isDigit false cs with
    | some cs => isExponent cs
    | none => false
  | some cs => isExponent cs

/-- The word is a number. -/
def isNumber (cs : List Char) : Bool :=
  match cs with
  | '0' :: 'x' :: cs => digits (fun c => (hexValue? c).isSome) false cs == some []
  | '0' :: 'o' :: cs => digits (fun c => decide ('0' ≤ c) && decide (c ≤ '7')) false cs == some []
  | '0' :: 'b' :: cs => digits (fun c => c == '0' || c == '1') false cs == some []
  | cs =>
    let plain := dropSign cs
    plain == ['i', 'n', 'f'] || plain == ['n', 'a', 'n'] || isDecimal plain

/-! ## 5. Dates and times -/

/-- The number with the given count of digits at the front, and the rest. -/
def count? (n : Nat) (cs : List Char) : Option (Nat × List Char) :=
  let ds := cs.take n
  if ds.length == n && ds.all Char.isDigit then
    some (ds.foldl (fun v d => 10 * v + (d.toNat - 0x30)) 0, cs.drop n)
  else none

/-- What follows a character. -/
def behind? (c : Char) : List Char → Option (List Char)
  | d :: cs => if d == c then some cs else none
  | [] => none

/-- The number of days of a month. -/
def daysOf (year month : Nat) : Nat :=
  if month == 2 then
    if year % 4 == 0 && (year % 100 != 0 || year % 400 == 0) then 29 else 28
  else if month == 4 || month == 6 || month == 9 || month == 11 then 30
  else 31

/-- What follows a date. -/
def afterDate (cs : List Char) : Option (List Char) := do
  let (year, cs) ← count? 4 cs
  let (month, cs) ← count? 2 (← behind? '-' cs)
  let (day, cs) ← count? 2 (← behind? '-' cs)
  if 1 ≤ month && month ≤ 12 && 1 ≤ day && day ≤ daysOf year month then some cs else none

/-- What follows the fraction of a second, if there is one. -/
def afterFraction (cs : List Char) : Option (List Char) :=
  match cs with
  | '.' :: c :: cs => if c.isDigit then some (cs.dropWhile Char.isDigit) else none
  | '.' :: [] => none
  | cs => some cs

/-- What follows a time of day; the seconds may be left out. -/
def afterTime (cs : List Char) : Option (List Char) := do
  let (hour, cs) ← count? 2 cs
  let (minute, cs) ← count? 2 (← behind? ':' cs)
  if 23 < hour || 59 < minute then none
  match cs with
  | ':' :: cs =>
    let (second, cs) ← count? 2 cs
    if 60 < second then none
    afterFraction cs
  | cs => some cs

/-- The text is nothing, or the distance from universal time. -/
def isOffset (cs : List Char) : Bool :=
  match cs with
  | [] => true
  | ['Z'] | ['z'] => true
  | c :: cs =>
    (c == '+' || c == '-') &&
      (do
        let (hour, cs) ← count? 2 cs
        let (minute, cs) ← count? 2 (← behind? ':' cs)
        pure (decide (hour ≤ 23) && decide (minute ≤ 59) && cs.isEmpty)) == some true

/-- The word is a date, a time, or both. -/
def isDate (cs : List Char) : Bool :=
  match afterDate cs with
  | some [] => true
  | some (c :: cs) =>
    (c == 'T' || c == 't' || c == ' ') && ((afterTime cs).map isOffset) == some true
  | none => afterTime cs == some []

end Scaffold.Toml
