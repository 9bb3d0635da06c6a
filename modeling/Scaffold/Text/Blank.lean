/-!
# Blank space, words and lines

Texts are read as lists of characters. This file fixes

* `isBlank` -- the characters with the Unicode property White_Space;
* `words` -- the maximal runs of non-blank characters;
* `squeeze` -- the words of a text with one space between them, its **normal
  form on one line**;
* `trim` -- a text without blanks at either end;
* `lines` -- the lines of a text, each without its line break, and `unlines`
  back again.
-/
namespace Scaffold.Text

/-- A character with the Unicode property White_Space. -/
def isBlank (c : Char) : Bool :=
  let n := c.toNat
  (decide (0x9 ≤ n) && decide (n ≤ 0xD)) || n == 0x20 || n == 0x85 || n == 0xA0 || n == 0x1680 ||
    (decide (0x2000 ≤ n) && decide (n ≤ 0x200A)) || n == 0x2028 || n == 0x2029 || n == 0x202F ||
    n == 0x205F || n == 0x3000

/-! ## 1. Words -/

/-- Words of a text, given the (reversed) beginning of the word under way. -/
def wordsFrom (begun : List Char) : List Char → List (List Char)
  | [] => if begun.isEmpty then [] else [begun.reverse]
  | c :: cs =>
    if isBlank c then
      if begun.isEmpty then wordsFrom [] cs else begun.reverse :: wordsFrom [] cs
    else wordsFrom (c :: begun) cs

/-- The maximal runs of non-blank characters, in order. -/
def words (cs : List Char) : List (List Char) := wordsFrom [] cs

/-- The words with one space between them. -/
def squeeze (cs : List Char) : List Char := List.intercalate [' '] (words cs)

/-! ## 2. Ends of a text -/

/-- A text without its last characters that satisfy `p`. -/
def dropEndWhile (p : Char → Bool) (cs : List Char) : List Char :=
  (cs.reverse.dropWhile p).reverse

/-- A text without blanks at either end. -/
def trim (cs : List Char) : List Char := dropEndWhile isBlank (cs.dropWhile isBlank)

/-! ## 3. Lines -/

/-- A (reversed) line without the carriage return it ends with. -/
def dropReturn : List Char → List Char
  | '\r' :: cs => cs
  | cs => cs

/-- Lines of a text, given the (reversed) beginning of the line under way. -/
def linesFrom (begun : List Char) : List Char → List (List Char)
  | [] => if begun.isEmpty then [] else [begun.reverse]
  | '\n' :: cs => (dropReturn begun).reverse :: linesFrom [] cs
  | c :: cs => linesFrom (c :: begun) cs

/-- The lines of a text. A line feed ends a line and takes a carriage return
before it along; after the last one, only a non-empty rest is a line. -/
def lines (cs : List Char) : List (List Char) := linesFrom [] cs

/-- The text made of lines, each with a line feed behind it. -/
def unlines (lines : List String) : String := String.join (lines.map (· ++ "\n"))

end Scaffold.Text
