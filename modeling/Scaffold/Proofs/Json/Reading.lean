import Mathlib.Data.List.Basic
import Scaffold.Json

/-!
# Reading JSON

A reader of JSON texts that knows nothing of how they were written. It is a strict one: a text
is read when it is one value, with nothing but blanks around it.

* `Json.read` -- the reader. Of the language it leaves out `null`, numbers that are no natural
  ones, and characters escaped in two halves, none of which is ever written;
* `readText_quoted` -- **a quoted text is read as that text**, whatever is in it;
* `readValue_pretty` -- a value that was written on many lines is read as that value, by
  induction on the value;
* `read_pretty` -- so **what is written is read back**.
-/
namespace Scaffold.Json

/-! ## 1. Blanks and texts -/

/-- A character that may stand between the parts of a value. -/
def blank (c : Char) : Bool := c == ' ' || c == '\n' || c == '\r' || c == '\t'

/-- The text without the blanks at its beginning. -/
def skip (cs : List Char) : List Char := cs.dropWhile blank

/-- What a hexadecimal digit stands for. -/
def hexValue (c : Char) : Option Nat :=
  if '0' ≤ c ∧ c ≤ '9' then some (c.toNat - 0x30)
  else if 'a' ≤ c ∧ c ≤ 'f' then some (c.toNat - 0x57)
  else if 'A' ≤ c ∧ c ≤ 'F' then some (c.toNat - 0x37)
  else none

/-- The character that four hexadecimal digits stand for; none for half of one. -/
def readHex (a b c d : Char) : Option Char :=
  match hexValue a, hexValue b, hexValue c, hexValue d with
  | some a, some b, some c, some d =>
    let n := 0x1000 * a + 0x100 * b + 0x10 * c + d
    if n.isValidChar then some (Char.ofNat n) else none
  | _, _, _, _ => none

/-- The character that one behind a backslash stands for. -/
def unescape : Char → Option Char
  | '"' => some '"'
  | '\\' => some '\\'
  | '/' => some '/'
  | 'n' => some '\n'
  | 'r' => some '\r'
  | 't' => some '\t'
  | 'b' => some '\x08'
  | 'f' => some '\x0c'
  | _ => none

/-- A text up to the quote that ends it, and what follows. -/
def readText : List Char → Option (List Char × List Char)
  | [] => none
  | '"' :: cs => some ([], cs)
  | '\\' :: 'u' :: a :: b :: c :: d :: cs =>
    (readHex a b c d).bind fun x => (readText cs).map fun t => (x :: t.1, t.2)
  | '\\' :: c :: cs =>
    (unescape c).bind fun x => (readText cs).map fun t => (x :: t.1, t.2)
  | c :: cs =>
    if c.toNat < 0x20 || c == '\\' then none
    else (readText cs).map fun t => (c :: t.1, t.2)

/-! ## 2. Values -/

/-- A natural number without a zero in front. -/
def readNumber (cs : List Char) : Option (Json × List Char) :=
  let n := Nat.ofDigitChars 10 (cs.takeWhile Char.isDigit) 0
  if Nat.toDigits 10 n = cs.takeWhile Char.isDigit then some (.number n, cs.dropWhile Char.isDigit)
  else none

/-- A truth value. -/
def readFlag : List Char → Option (Json × List Char)
  | 't' :: 'r' :: 'u' :: 'e' :: cs => some (.flag true, cs)
  | 'f' :: 'a' :: 'l' :: 's' :: 'e' :: cs => some (.flag false, cs)
  | _ => none

mutual

/-- A value at the beginning of a text, and what follows. The number bounds how deep values
may lie in each other, together with how many there are in a row. -/
def readValue : Nat → List Char → Option (Json × List Char)
  | 0, _ => none
  | n + 1, cs =>
    match skip cs with
    | [] => none
    | '"' :: cs => (readText cs).map fun t => (.text (String.ofList t.1), t.2)
    | '[' :: cs =>
      match skip cs with
      | ']' :: cs => some (.array [], cs)
      | cs => (readItems n cs).map fun x => (.array x.1, x.2)
    | '\x7b' :: cs =>
      match skip cs with
      | '\x7d' :: cs => some (.object [], cs)
      | cs => (readFields n cs).map fun x => (.object x.1, x.2)
    | c :: cs => if c.isDigit then readNumber (c :: cs) else readFlag (c :: cs)

/-- The values up to the end of a list. -/
def readItems : Nat → List Char → Option (List Json × List Char)
  | 0, _ => none
  | n + 1, cs =>
    (readValue n cs).bind fun v =>
      match skip v.2 with
      | ',' :: cs => (readItems n cs).map fun x => (v.1 :: x.1, x.2)
      | ']' :: cs => some ([v.1], cs)
      | _ => none

/-- The fields up to the end of an object. -/
def readFields : Nat → List Char → Option (List (String × Json) × List Char)
  | 0, _ => none
  | n + 1, cs =>
    match skip cs with
    | '"' :: cs =>
      (readText cs).bind fun k =>
        match skip k.2 with
        | ':' :: cs =>
          (readValue n cs).bind fun v =>
            match skip v.2 with
            | ',' :: cs =>
              (readFields n cs).map fun x => ((String.ofList k.1, v.1) :: x.1, x.2)
            | '\x7d' :: cs => some ([(String.ofList k.1, v.1)], cs)
            | _ => none
        | _ => none
    | _ => none

end

/-- The value that a text is. -/
def read (text : String) : Option Json :=
  match readValue (text.length + 1) text.toList with
  | some (v, rest) => if (skip rest).isEmpty then some v else none
  | none => none

/-! ## 3. Texts are read back -/

theorem hexValue_hexDigit : ∀ n, n < 16 → hexValue (hexDigit n) = some n := by decide

/-- A character that is not escaped stands for itself. -/
theorem readText_plain {c : Char} {cs : List Char} (hquote : c ≠ '"') (hback : c ≠ '\\')
    (hlow : ¬c.toNat < 0x20) :
    readText (c :: cs) = (readText cs).map fun t => (c :: t.1, t.2) := by
  rw [readText.eq_def]
  split
  · rename_i heq
    cases heq
  · rename_i heq
    exact absurd (List.cons.inj heq).1 hquote
  · rename_i heq
    exact absurd (List.cons.inj heq).1 hback
  · rename_i heq
    exact absurd (List.cons.inj heq).1 hback
  · rename_i heq
    obtain ⟨rfl, rfl⟩ := List.cons.inj heq
    rw [if_neg]
    rw [decide_eq_false hlow, beq_eq_false_iff_ne.mpr hback]
    decide

/-- What is written for a character is read as that character. -/
theorem readText_escape (c : Char) (cs : List Char) :
    readText (escape c ++ cs) = (readText cs).map fun t => (c :: t.1, t.2) := by
  unfold escape
  split
  · simp [readText, unescape]
  · simp [readText, unescape]
  · simp [readText, unescape]
  · simp [readText, unescape]
  · simp [readText, unescape]
  · simp [readText, unescape]
  · simp [readText, unescape]
  · split
    · rename_i h
      have hhigh := hexValue_hexDigit (c.toNat / 16) (by omega)
      have hlow := hexValue_hexDigit (c.toNat % 16) (by omega)
      have hzero : hexValue '0' = some 0 := by decide
      have hn : 0x1000 * 0 + 0x100 * 0 + 0x10 * (c.toNat / 16) + c.toNat % 16 = c.toNat := by omega
      simp only [List.cons_append, List.nil_append, readText, readHex, hhigh, hlow, hzero, hn]
      have hvalid : c.toNat.isValidChar := c.valid
      rw [if_pos hvalid, Char.ofNat_toNat]
      rfl
    · rename_i hquote hback _ _ _ _ _ hlow
      exact readText_plain hquote hback hlow

theorem readText_quoted (s : String) (cs : List Char) :
    readText (s.toList.flatMap escape ++ '"' :: cs) = some (s.toList, cs) := by
  induction s.toList with
  | nil => simp [readText]
  | cons c s ih => rw [List.flatMap_cons, List.append_assoc, readText_escape, ih]; rfl

/-! ## 4. Parts of values are read back -/

section Blanks

variable {n : Nat} {bs cs : List Char}

theorem skip_blanks (h : ∀ c ∈ bs, blank c = true) : skip (bs ++ cs) = skip cs :=
  List.dropWhile_append_of_pos h

theorem skip_cons {c : Char} (h : blank c = false) : skip (c :: cs) = c :: cs :=
  List.dropWhile_cons_of_neg (by simp [h])

theorem skip_skip : skip (skip cs) = skip cs := by
  induction cs with
  | nil => rfl
  | cons c cs ih =>
    by_cases h : blank c = true
    · have hcons : skip (c :: cs) = skip cs := List.dropWhile_cons_of_pos h
      rw [hcons, ih]
    · rw [skip_cons (by simpa using h), skip_cons (by simpa using h)]

/-- Blanks before a value do not count. -/
theorem readValue_skip : readValue n (skip cs) = readValue n cs := by
  cases n with
  | zero => rfl
  | succ n => rw [readValue, readValue, skip_skip]

theorem readItems_skip : readItems n (skip cs) = readItems n cs := by
  cases n with
  | zero => rfl
  | succ n => rw [readItems, readItems, readValue_skip]

theorem readFields_skip : readFields n (skip cs) = readFields n cs := by
  cases n with
  | zero => rfl
  | succ n => rw [readFields, readFields, skip_skip]

theorem readValue_blanks (h : ∀ c ∈ bs, blank c = true) :
    readValue n (bs ++ cs) = readValue n cs := by
  rw [← readValue_skip, skip_blanks h, readValue_skip]

theorem readItems_blanks (h : ∀ c ∈ bs, blank c = true) :
    readItems n (bs ++ cs) = readItems n cs := by
  rw [← readItems_skip, skip_blanks h, readItems_skip]

theorem readFields_blanks (h : ∀ c ∈ bs, blank c = true) :
    readFields n (bs ++ cs) = readFields n cs := by
  rw [← readFields_skip, skip_blanks h, readFields_skip]

end Blanks

theorem blank_indent (level : Nat) : ∀ c ∈ (indent level).toList, blank c = true := by
  intro c hc
  rw [indent, String.toList_ofList] at hc
  rw [(List.mem_replicate.mp hc).2]
  rfl

/-- The end of a line and the blanks in front of the next one. -/
theorem blank_line (level : Nat) : ∀ c ∈ '\n' :: (indent level).toList, blank c = true :=
  List.forall_mem_cons.mpr ⟨rfl, blank_indent level⟩

theorem blank_space : ∀ c ∈ [' '], blank c = true := List.forall_mem_singleton.mpr rfl

theorem blank_lineFeed : ∀ c ∈ ['\n'], blank c = true := List.forall_mem_singleton.mpr rfl

/-- What follows does not go on with a digit. -/
def Closed (cs : List Char) : Prop := ∀ c ∈ cs.head?, c.isDigit = false

theorem closed_cons {c : Char} {cs : List Char} (h : c.isDigit = false) : Closed (c :: cs) := by
  simpa [Closed] using h

/-- A number is read up to the end of its digits. -/
theorem readNumber_toString (n : Nat) {cs : List Char} (h : Closed cs) :
    readNumber ((toString n).toList ++ cs) = some (.number n, cs) := by
  have hdigits : ∀ c ∈ Nat.toDigits 10 n, c.isDigit = true := fun c hc =>
    Nat.isDigit_of_mem_toDigits (by decide) (by decide) hc
  have hstop : cs.takeWhile Char.isDigit = [] ∧ cs.dropWhile Char.isDigit = cs := by
    cases cs with
    | nil => exact ⟨rfl, rfl⟩
    | cons c cs => simp [h c rfl]
  rw [Nat.toString_eq_ofList_toDigits, String.toList_ofList, readNumber,
    List.takeWhile_append_of_pos hdigits, hstop.1, List.append_nil, Nat.ofDigitChars_ten_toDigits,
    if_pos rfl, List.dropWhile_append_of_pos hdigits, hstop.2]

section Parts

variable {n : Nat} {bs cs rest more : List Char} {v : Json} {vs : List Json} {k : String}
  {fs : List (String × Json)}

/-- A list is read when its values are. -/
theorem readValue_array (h : readItems n cs = some (vs, rest)) :
    readValue (n + 1) ('[' :: cs) = some (.array vs, rest) := by
  rw [readValue, skip_cons (by decide)]
  change (match skip cs with
    | ']' :: cs => some (Json.array [], cs)
    | cs => (readItems n cs).map fun x : List Json × List Char => (Json.array x.1, x.2)) = _
  split
  · -- there would be no value to read
    rename_i r hskip
    rw [← readItems_skip, hskip] at h
    cases n with
    | zero => cases h
    | succ n =>
      rw [readItems] at h
      cases n with
      | zero => cases h
      | succ n => rw [readValue, skip_cons (by decide)] at h; cases h
  · rw [readItems_skip, h]
    rfl

/-- An object is read when its fields are. -/
theorem readValue_object (h : readFields n cs = some (fs, rest)) :
    readValue (n + 1) ('\x7b' :: cs) = some (.object fs, rest) := by
  rw [readValue, skip_cons (by decide)]
  change (match skip cs with
    | '\x7d' :: cs => some (Json.object [], cs)
    | cs => (readFields n cs).map fun x : List (String × Json) × List Char =>
      (Json.object x.1, x.2)) = _
  split
  · rename_i r hskip
    rw [← readFields_skip, hskip] at h
    cases n with
    | zero => cases h
    | succ n => rw [readFields, skip_cons (by decide)] at h; cases h
  · rw [readFields_skip, h]
    rfl

theorem readItems_last (hbs : ∀ c ∈ bs, blank c = true)
    (h : readValue n cs = some (v, bs ++ ']' :: rest)) :
    readItems (n + 1) cs = some ([v], rest) := by
  rw [readItems, h, Option.bind_some, skip_blanks hbs, skip_cons (by decide)]
  rfl

theorem readItems_more (h : readValue n cs = some (v, ',' :: more))
    (hmore : readItems n more = some (vs, rest)) :
    readItems (n + 1) cs = some (v :: vs, rest) := by
  rw [readItems, h, Option.bind_some, skip_cons (by decide)]
  change (readItems n more).map (fun x => (v :: x.1, x.2)) = _
  rw [hmore]
  rfl

/-- The name of a field is read, and then its value. -/
theorem readFields_key (hbs : ∀ c ∈ bs, blank c = true) :
    readFields (n + 1) (bs ++ ((quoted k).toList ++ ':' :: cs)) =
      (readValue n cs).bind fun v =>
        match skip v.2 with
        | ',' :: cs => (readFields n cs).map fun x => ((k, v.1) :: x.1, x.2)
        | '\x7d' :: cs => some ([(k, v.1)], cs)
        | _ => none := by
  have hquoted : (quoted k).toList ++ ':' :: cs =
      '"' :: (k.toList.flatMap escape ++ '"' :: ':' :: cs) := by
    simp [quoted]
  rw [readFields, skip_blanks hbs, hquoted, skip_cons (by decide)]
  change (readText (k.toList.flatMap escape ++ '"' :: ':' :: cs)).bind _ = _
  rw [readText_quoted, Option.bind_some, skip_cons (by decide)]
  simp only [String.ofList_toList]

theorem readFields_last {es : List Char} (hbs : ∀ c ∈ bs, blank c = true)
    (hes : ∀ c ∈ es, blank c = true) (h : readValue n cs = some (v, es ++ '\x7d' :: rest)) :
    readFields (n + 1) (bs ++ ((quoted k).toList ++ ':' :: cs)) = some ([(k, v)], rest) := by
  rw [readFields_key hbs, h, Option.bind_some, skip_blanks hes, skip_cons (by decide)]
  rfl

theorem readFields_more (hbs : ∀ c ∈ bs, blank c = true)
    (h : readValue n cs = some (v, ',' :: more)) (hmore : readFields n more = some (fs, rest)) :
    readFields (n + 1) (bs ++ ((quoted k).toList ++ ':' :: cs)) = some ((k, v) :: fs, rest) := by
  rw [readFields_key hbs, h, Option.bind_some, skip_cons (by decide)]
  change (readFields n more).map (fun x => ((k, v) :: x.1, x.2)) = _
  rw [hmore]
  rfl

end Parts

/-! ## 5. Values are read back -/

/-- The lines of a block at a level. -/
def blockLines (level : Nat) (items : List String) : List Char :=
  (",\n".intercalate (items.map (indent level ++ ·))).toList

theorem blockLines_one (level : Nat) (x : String) :
    blockLines level [x] = (indent level).toList ++ x.toList := by
  rw [blockLines, List.map_singleton, String.intercalate_singleton, String.toList_append]

theorem blockLines_more (level : Nat) (x y : String) (xs : List String) :
    blockLines level (x :: y :: xs) =
      (indent level).toList ++ (x.toList ++ ',' :: '\n' :: blockLines level (y :: xs)) := by
  rw [blockLines, List.map_cons, String.intercalate_cons_of_ne_nil (by simp), blockLines]
  simp

theorem toList_block {left right : String} {level : Nat} {items : List String} (h : items ≠ []) :
    (block left right level items).toList = left.toList ++
      '\n' :: (blockLines (level + 1) items ++ '\n' :: ((indent level).toList ++ right.toList)) := by
  rw [block, if_neg (by simpa using h), blockLines]
  simp

/-- A truth value is read back. -/
theorem readValue_flag (b : Bool) (level n : Nat) (rest : List Char) :
    readValue (n + 1) ((prettyAt level (.flag b)).toList ++ rest) = some (.flag b, rest) := by
  cases b with
  | true =>
    have htext : (prettyAt level (.flag true)).toList ++ rest = 't' :: 'r' :: 'u' :: 'e' :: rest := by
      simp [prettyAt]
    rw [htext, readValue, skip_cons (by decide)]
    rfl
  | false =>
    have htext : (prettyAt level (.flag false)).toList ++ rest =
        'f' :: 'a' :: 'l' :: 's' :: 'e' :: rest := by
      simp [prettyAt]
    rw [htext, readValue, skip_cons (by decide)]
    rfl

/-- So is a number. -/
theorem readValue_number (k level n : Nat) {rest : List Char} (h : Closed rest) :
    readValue (n + 1) ((prettyAt level (.number k)).toList ++ rest) = some (.number k, rest) := by
  have hread := readNumber_toString k h
  rw [prettyAt]
  have hdigits : ∀ c ∈ (toString k).toList, c.isDigit = true := by
    rw [Nat.toString_eq_ofList_toDigits, String.toList_ofList]
    exact fun c hc => Nat.isDigit_of_mem_toDigits (by decide) (by decide) hc
  cases htext : (toString k).toList with
  | nil =>
    rw [Nat.toString_eq_ofList_toDigits, String.toList_ofList] at htext
    exact absurd htext Nat.toDigits_ne_nil
  | cons c cs =>
    rw [htext] at hread hdigits
    have hc : c.isDigit = true := hdigits c List.mem_cons_self
    have hblank : blank c = false := by
      by_contra hb
      simp only [blank, Bool.not_eq_false, Bool.or_eq_true, beq_iff_eq] at hb
      rcases hb with ((rfl | rfl) | rfl) | rfl <;> revert hc <;> decide
    rw [List.cons_append, readValue, skip_cons hblank]
    split
    · contradiction
    · rename_i heq; cases heq; exact absurd hc (by decide)
    · rename_i heq; cases heq; exact absurd hc (by decide)
    · rename_i heq; cases heq; exact absurd hc (by decide)
    · rename_i heq
      cases heq
      rw [if_pos hc]
      exact hread

mutual

/-- **A value that is written is read back**, by induction on the value. -/
theorem readValue_pretty : ∀ (v : Json) (level n : Nat) (rest : List Char),
    (prettyAt level v).toList.length < n → Closed rest →
      readValue n ((prettyAt level v).toList ++ rest) = some (v, rest)
  | _, _, 0, _, hn, _ => absurd hn (Nat.not_lt_zero _)
  | .flag b, level, n + 1, rest, _, _ => readValue_flag b level n rest
  | .number k, level, n + 1, _, _, h => readValue_number k level n h
  | .text s, level, n + 1, rest, _, _ => by
    have htext : (prettyAt level (.text s)).toList ++ rest =
        '"' :: (s.toList.flatMap escape ++ '"' :: rest) := by
      simp [prettyAt, quoted]
    rw [htext, readValue, skip_cons (by decide)]
    change (readText (s.toList.flatMap escape ++ '"' :: rest)).map _ = _
    rw [readText_quoted, Option.map_some, String.ofList_toList]
  | .array [], level, n + 1, rest, _, _ => by
    have htext : (prettyAt level (.array [])).toList ++ rest = '[' :: ']' :: rest := by
      simp [prettyAt, prettyItems, block]
    rw [htext, readValue, skip_cons (by decide)]
    rfl
  | .array (v :: vs), level, n + 1, rest, hn, _ => by
    have hne : prettyItems (level + 1) (v :: vs) ≠ [] := by simp [prettyItems]
    rw [prettyAt, toList_block hne] at hn ⊢
    simp only [List.length_append, List.length_cons] at hn
    have hitems := readItems_pretty (v :: vs) (level + 1) n level rest (by simp) (by omega)
    have htext : "[".toList ++ '\n' :: (blockLines (level + 1) (prettyItems (level + 1) (v :: vs)) ++
        '\n' :: ((indent level).toList ++ "]".toList)) ++ rest =
        '[' :: (['\n'] ++ (blockLines (level + 1) (prettyItems (level + 1) (v :: vs)) ++
          '\n' :: ((indent level).toList ++ ']' :: rest))) := by simp
    rw [htext]
    exact readValue_array ((readItems_blanks blank_lineFeed).trans hitems)
  | .object [], level, n + 1, rest, _, _ => by
    have htext : (prettyAt level (.object [])).toList ++ rest = '\x7b' :: '\x7d' :: rest := by
      simp [prettyAt, prettyFields, block]
    rw [htext, readValue, skip_cons (by decide)]
    rfl
  | .object (f :: fs), level, n + 1, rest, hn, _ => by
    have hne : prettyFields (level + 1) (f :: fs) ≠ [] := by
      obtain ⟨k, v⟩ := f
      simp [prettyFields]
    rw [prettyAt, toList_block hne] at hn ⊢
    simp only [List.length_append, List.length_cons] at hn
    have hfields := readFields_pretty (f :: fs) (level + 1) n level rest (by simp) (by omega)
    have htext : "\x7b".toList ++ '\n' :: (blockLines (level + 1) (prettyFields (level + 1) (f :: fs)) ++
        '\n' :: ((indent level).toList ++ "\x7d".toList)) ++ rest =
        '\x7b' :: (['\n'] ++ (blockLines (level + 1) (prettyFields (level + 1) (f :: fs)) ++
          '\n' :: ((indent level).toList ++ '\x7d' :: rest))) := by simp
    rw [htext]
    exact readValue_object ((readFields_blanks blank_lineFeed).trans hfields)

/-- The values of a list are read back. -/
theorem readItems_pretty : ∀ (vs : List Json) (level n outer : Nat) (rest : List Char), vs ≠ [] →
    (blockLines level (prettyItems level vs)).length + 1 < n →
      readItems n (blockLines level (prettyItems level vs) ++
        '\n' :: ((indent outer).toList ++ ']' :: rest)) = some (vs, rest)
  | [], _, _, _, _, hne, _ => absurd rfl hne
  | _, _, 0, _, _, _, hn => absurd hn (Nat.not_lt_zero _)
  | [v], level, n + 1, outer, rest, _, hn => by
    rw [prettyItems, prettyItems, blockLines_one] at hn ⊢
    rw [List.length_append] at hn
    have hv := readValue_pretty v level n ('\n' :: ((indent outer).toList ++ ']' :: rest))
      (by omega) (closed_cons (by decide))
    rw [← readValue_blanks (blank_indent level), ← List.append_assoc] at hv
    exact readItems_last (blank_line outer) hv
  | v :: w :: vs, level, n + 1, outer, rest, _, hn => by
    rw [prettyItems, prettyItems, blockLines_more, ← prettyItems] at hn ⊢
    simp only [List.length_append, List.length_cons] at hn
    have hmore := readItems_pretty (w :: vs) level n outer rest (by simp) (by omega)
    have hv := readValue_pretty v level n (',' :: '\n' :: (blockLines level (prettyItems level (w :: vs)) ++
      '\n' :: ((indent outer).toList ++ ']' :: rest))) (by omega) (closed_cons (by decide))
    rw [← readValue_blanks (blank_indent level)] at hv
    simp only [List.append_assoc, List.cons_append]
    exact readItems_more hv ((readItems_blanks blank_lineFeed).trans hmore)

/-- The fields of an object are read back. -/
theorem readFields_pretty : ∀ (fs : List (String × Json)) (level n outer : Nat) (rest : List Char),
    fs ≠ [] → (blockLines level (prettyFields level fs)).length + 1 < n →
      readFields n (blockLines level (prettyFields level fs) ++
        '\n' :: ((indent outer).toList ++ '\x7d' :: rest)) = some (fs, rest)
  | [], _, _, _, _, hne, _ => absurd rfl hne
  | _, _, 0, _, _, _, hn => absurd hn (Nat.not_lt_zero _)
  | [(k, v)], level, n + 1, outer, rest, _, hn => by
    rw [prettyFields, prettyFields, blockLines_one] at hn ⊢
    simp only [String.toList_append, List.length_append] at hn
    have hv := readValue_pretty v level n ('\n' :: ((indent outer).toList ++ '\x7d' :: rest))
      (by omega) (closed_cons (by decide))
    rw [← readValue_blanks blank_space] at hv
    have htext : (indent level).toList ++ (quoted k ++ ": " ++ prettyAt level v).toList ++
        '\n' :: ((indent outer).toList ++ '\x7d' :: rest) =
        (indent level).toList ++ ((quoted k).toList ++ ':' :: ([' '] ++ ((prettyAt level v).toList ++
          '\n' :: ((indent outer).toList ++ '\x7d' :: rest)))) := by simp
    rw [htext]
    exact readFields_last (blank_indent level) (blank_line outer) hv
  | (k, v) :: (k', w) :: fs, level, n + 1, outer, rest, _, hn => by
    rw [prettyFields, prettyFields, blockLines_more, ← prettyFields] at hn ⊢
    simp only [String.toList_append, List.length_append, List.length_cons] at hn
    have hmore := readFields_pretty ((k', w) :: fs) level n outer rest (by simp) (by omega)
    have hv := readValue_pretty v level n (',' :: '\n' ::
      (blockLines level (prettyFields level ((k', w) :: fs)) ++
        '\n' :: ((indent outer).toList ++ '\x7d' :: rest))) (by omega) (closed_cons (by decide))
    rw [← readValue_blanks blank_space] at hv
    have htext : (indent level).toList ++ ((quoted k ++ ": " ++ prettyAt level v).toList ++ ',' ::
        '\n' :: blockLines level (prettyFields level ((k', w) :: fs))) ++
          '\n' :: ((indent outer).toList ++ '\x7d' :: rest) =
        (indent level).toList ++ ((quoted k).toList ++ ':' :: ([' '] ++ ((prettyAt level v).toList ++
          ',' :: '\n' :: (blockLines level (prettyFields level ((k', w) :: fs)) ++
            '\n' :: ((indent outer).toList ++ '\x7d' :: rest))))) := by simp
    rw [htext]
    exact readFields_more (blank_indent level) hv
      ((readFields_blanks blank_lineFeed).trans hmore)

end

/-- **What is written is read back**, with the line's end behind it. -/
theorem read_pretty (v : Json) : read (v.pretty ++ "\n") = some v := by
  have hread := readValue_pretty v 0 ((v.pretty ++ "\n").length + 1) ['\n'] (by
    rw [String.length_append, String.length_toList]
    exact Nat.lt_succ_of_le (Nat.le_add_right _ _)) (closed_cons (by decide))
  rw [read, String.toList_append]
  change (match readValue _ ((prettyAt 0 v).toList ++ ['\n']) with
    | some (v, rest) => _
    | none => _) = _
  rw [hread]
  rfl

/-- A text without anything in it is no value. -/
theorem read_empty : read "" = none := by decide

end Scaffold.Json
