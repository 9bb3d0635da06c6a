import Mathlib.Data.List.Chain
import Scaffold.Cpp.Token
import Scaffold.Proofs.Text.Squeeze

/-!
# Tokens written out

A text that is written token by token is read as these tokens, if none runs into the next.

* `spelled` -- tokens as they are written, each behind its blank space;
* `Lexes` -- the tokens at the front of a text, and the text behind them;
* `Token.Simple` -- words, numbers, and the marks that stand for themselves; `Clear`: of such
  tokens none runs into the next;
* `lexes_clear` -- **they are read as they are written**;
* `lexes_comment`, `lexes_pragma`, `lexes_include` -- and so are the lines of other kinds that
  a header has;
* `tokens_eq` -- the tokens of a whole text.
-/
namespace Scaffold.Cpp

open Text (isWord isIdentifierPart isIdentifierStart)

variable {cs ds rest : List Char} {ts us : List Token} {t u : Token} {c : Char} {w : List Char}

/-- Tokens as they are written. -/
def spelled (ts : List Token) : List Char := ts.flatMap fun t => t.lead ++ t.text

@[simp] theorem spelled_nil : spelled [] = [] := rfl

@[simp] theorem spelled_cons : spelled (t :: ts) = t.lead ++ t.text ++ spelled ts := rfl

@[simp] theorem spelled_append : spelled (ts ++ us) = spelled ts ++ spelled us :=
  List.flatMap_append

/-! ## 1. Tokens at the front of a text -/

/-- The text begins with the tokens, and then goes on with the rest. -/
def Lexes (cs : List Char) (ts : List Token) (rest : List Char) : Prop :=
  ts.length + rest.length ≤ cs.length ∧
    ∀ n, tokensFrom (ts.length + n) false cs = ts ++ tokensFrom n false rest

theorem Lexes.nil : Lexes cs [] cs := ⟨by simp, fun n => by simp⟩

theorem Lexes.append (h : Lexes cs ts ds) (h' : Lexes ds us rest) : Lexes cs (ts ++ us) rest := by
  refine ⟨?_, fun n => ?_⟩
  · have h1 := h.1
    have h2 := h'.1
    rw [List.length_append]
    omega
  · rw [List.length_append, Nat.add_assoc, h.2, h'.2, List.append_assoc]

theorem splitSpace_lead {lead : List Char} (hlead : ∀ x ∈ lead, isSpace x = true)
    (hc : isSpace c = false) (hslash : c ≠ '\\') (cs : List Char) :
    splitSpace (lead ++ c :: cs) = (lead, c :: cs) := by
  induction lead with
  | nil =>
    rw [List.nil_append, splitSpace.eq_def]
    split
    · rename_i heq
      exact absurd (List.cons.inj heq).1 hslash
    · rename_i heq
      exact absurd (List.cons.inj heq).1 hslash
    · rename_i heq
      obtain ⟨rfl, rfl⟩ := List.cons.inj heq
      rw [if_neg (by simp [hc])]
    · rename_i heq
      cases heq
  | cons a lead ih =>
    obtain ⟨ha, hlead⟩ := List.forall_mem_cons.mp hlead
    have hne : a ≠ '\\' := by
      rintro rfl
      exact absurd ha (by decide)
    rw [List.cons_append, splitSpace.eq_def]
    split
    · rename_i heq
      exact absurd (List.cons.inj heq).1 hne
    · rename_i heq
      exact absurd (List.cons.inj heq).1 hne
    · rename_i heq
      obtain ⟨rfl, rfl⟩ := List.cons.inj heq
      rw [if_pos ha, ih hlead]
    · rename_i heq
      cases heq

/-- A character that a token can begin with. -/
def Shows (c : Char) : Prop := isSpace c = false ∧ c ≠ '\\'

instance : DecidablePred Shows := fun _ => inferInstanceAs (Decidable (_ ∧ _))

theorem tokensFrom_token {lead text : List Char} {sort : TokenClass}
    (hlead : ∀ x ∈ lead, isSpace x = true) (hshows : ∀ x ∈ (text ++ rest).head?, Shows x)
    (hne : text ≠ []) (hfirst : firstToken (text ++ rest) = (sort, text, rest)) (n : Nat) :
    tokensFrom (n + 1) false (lead ++ (text ++ rest)) = ⟨sort, lead, text⟩ ::
      tokensFrom n (sort == .directive ['i', 'n', 'c', 'l', 'u', 'd', 'e']) rest := by
  obtain ⟨c, cs, htext⟩ := List.exists_cons_of_ne_nil hne
  obtain ⟨hspace, hslash⟩ := hshows c (by rw [htext]; rfl)
  have hsplit : splitSpace (lead ++ (text ++ rest)) = (lead, text ++ rest) := by
    rw [htext]
    exact splitSpace_lead hlead hspace hslash (cs ++ rest)
  rw [tokensFrom, hsplit]
  split
  · rename_i heq
    have hnil := (Prod.mk.inj heq).2
    rw [htext] at hnil
    cases hnil
  · rename_i heq
    obtain ⟨rfl, rfl⟩ := Prod.mk.inj heq
    rw [hfirst]
    simp

/-- **A token at the front of a text.** -/
theorem Lexes.token (hlead : ∀ x ∈ t.lead, isSpace x = true)
    (hshows : ∀ x ∈ (t.text ++ rest).head?, Shows x) (hne : t.text ≠ [])
    (hsort : t.sort ≠ .directive ['i', 'n', 'c', 'l', 'u', 'd', 'e'])
    (hfirst : firstToken (t.text ++ rest) = (t.sort, t.text, rest)) :
    Lexes (t.lead ++ (t.text ++ rest)) [t] rest := by
  have hpos := List.length_pos_iff.mpr hne
  refine ⟨?_, fun n => ?_⟩
  · simp only [List.length_append, List.length_singleton]
    omega
  · rw [List.length_singleton, Nat.add_comm 1 n, tokensFrom_token hlead hshows hne hfirst,
      beq_eq_false_iff_ne.mpr hsort]
    rfl

theorem tokensFrom_blank (hcs : ∀ x ∈ cs, isSpace x = true) (n : Nat) (b : Bool) :
    tokensFrom n b cs = [] := by
  have hsplit : (splitSpace cs).2 = [] := by
    induction cs with
    | nil => rfl
    | cons a cs ih =>
      obtain ⟨ha, hcs⟩ := List.forall_mem_cons.mp hcs
      have hne : a ≠ '\\' := by
        rintro rfl
        exact absurd ha (by decide)
      rw [splitSpace.eq_def]
      split
      · rename_i heq
        exact absurd (List.cons.inj heq).1 hne
      · rename_i heq
        exact absurd (List.cons.inj heq).1 hne
      · rename_i heq
        obtain ⟨rfl, rfl⟩ := List.cons.inj heq
        rw [if_pos ha]
        exact ih hcs
      · rename_i heq
        cases heq
  cases n with
  | zero => rfl
  | succ n =>
    rw [tokensFrom]
    split
    · rfl
    · rename_i hne heq
      rw [heq] at hsplit
      exact (hne hsplit).elim

/-- **The tokens of a whole text.** -/
theorem tokens_eq (h : Lexes cs ts rest) (hrest : ∀ x ∈ rest, isSpace x = true)
    (hmark : cs.head? ≠ some '\ufeff') : tokens cs = ts := by
  have hcs : tokens cs = tokensFrom cs.length false cs := by
    rw [tokens.eq_def]
    split
    · exact absurd rfl hmark
    · rfl
  obtain ⟨n, hn⟩ := Nat.exists_eq_add_of_le (Nat.le_of_add_right_le h.1)
  rw [hcs, hn, h.2, tokensFrom_blank hrest, List.append_nil]

/-! ## 2. Single tokens -/

/-- The text does not go on with a word, a number or a literal. -/
def Breaks (cs : List Char) : Prop :=
  ∀ c ∈ cs.head?, isIdentifierPart c = false ∧ c ≠ '"' ∧ c ≠ '\x27' ∧ c ≠ '.'

/-- Characters that do not go on with a word, a number or a literal. -/
def breakers : List Char :=
  [' ', '\n', '(', ')', '{', '}', '<', '>', ',', ';', ':', '*', '&', '=', '~', '[', ']']

theorem breaks_of_mem (hc : c ∈ breakers) (cs : List Char) : Breaks (c :: cs) := by
  have hall : ∀ c ∈ breakers, isIdentifierPart c = false ∧ c ≠ '"' ∧ c ≠ '\x27' ∧ c ≠ '.' :=
    List.forall_iff_forall_mem.mp (by decide)
  intro x hx
  obtain rfl := Option.some.inj hx
  exact hall c hc

theorem takeWhile_part (hw : ∀ x ∈ w, isIdentifierPart x = true) (hrest : Breaks rest) :
    (w ++ rest).takeWhile isIdentifierPart = w := by
  rw [List.takeWhile_append_of_pos hw]
  cases rest with
  | nil => rw [List.takeWhile_nil, List.append_nil]
  | cons c cs =>
    rw [List.takeWhile_cons_of_neg (by simp [(hrest c rfl).1]), List.append_nil]

theorem quoted_none (mark : List Char) (hrest : Breaks rest) : quoted mark rest = none := by
  rw [quoted.eq_def]
  split
  · exact absurd rfl (hrest _ rfl).2.1
  · exact absurd rfl (hrest _ rfl).2.2.1
  · rfl

/-- No letter begins a token of another kind. -/
theorem ne_of_start (hc : isIdentifierStart c = true) {d : Char}
    (hd : isIdentifierStart d = false) : c ≠ d := by
  rintro rfl
  rw [hc] at hd
  cases hd

/-- **A word is read up to its end.** -/
theorem firstToken_word (hw : isWord w = true) (hrest : Breaks rest) :
    firstToken (w ++ rest) = (.word, w, rest) := by
  obtain ⟨c, cs, rfl⟩ := List.exists_cons_of_ne_nil (Text.ne_nil_of_isWord hw)
  obtain ⟨hstart, hcs⟩ := Text.isWord_cons.mp hw
  have hslash : c ≠ '/' := ne_of_start hstart (by decide)
  have hhash : c ≠ '#' := ne_of_start hstart (by decide)
  rw [List.cons_append, firstToken.eq_def]
  split
  · rename_i heq
    cases heq
  · rename_i heq
    exact absurd (List.cons.inj heq).1 hslash
  · rename_i heq
    obtain ⟨rfl, rfl⟩ := List.cons.inj heq
    dsimp only
    rw [if_neg (by simpa using hslash), if_neg (by simpa using hhash), if_pos hstart,
      takeWhile_part hcs hrest]
    have hdrop : (c :: (cs ++ rest)).drop (c :: cs).length = rest := by simp
    rw [hdrop, quoted_none _ hrest]
    rfl

/-- The digits. -/
def digits : List Char := ['0', '1', '2', '3', '4', '5', '6', '7', '8', '9']

/-- A bound is a number, or left out. -/
def Bound (s : List Char) : Prop := ∀ c ∈ s, c ∈ digits

instance (s : List Char) : Decidable (Bound s) :=
  List.decidableBAll (· ∈ digits) s

/-- No number begins where a text breaks. -/
theorem numberRest_nil (hrest : Breaks rest) : numberRest rest = ([], rest) := by
  have hother {e : Char} {cs : List Char} (h : Breaks (e :: cs)) :
      (e == 'e' || e == 'E' || e == 'p' || e == 'P') = false ∧
        (e.isAlphanum || e == '.' || e == '_') = false := by
    obtain ⟨hpart, -, -, hdot⟩ := h e rfl
    unfold isIdentifierPart at hpart
    simp only [Bool.or_eq_false_iff] at hpart ⊢
    have hletter {d : Char} (hd : d.isAlphanum = true) : (e == d) = false := by
      refine beq_eq_false_iff_ne.mpr ?_
      rintro rfl
      rw [hpart.1.1.1] at hd
      cases hd
    exact ⟨⟨⟨⟨hletter rfl, hletter rfl⟩, hletter rfl⟩, hletter rfl⟩,
      ⟨hpart.1.1.1, beq_eq_false_iff_ne.mpr hdot⟩, hpart.1.1.2⟩
  rw [numberRest.eq_def]
  split
  · exact absurd rfl (hrest _ rfl).2.2.1
  · obtain ⟨hexponent, hpart⟩ := hother hrest
    rw [if_neg (by simp [hexponent]), if_neg (by simp [hpart])]
  · obtain ⟨-, hpart⟩ := hother hrest
    rw [if_neg (by simp [hpart])]
  · rfl

/-- Digits are read up to their end. -/
theorem numberRest_digits (hs : Bound w) (hrest : Breaks rest) :
    numberRest (w ++ rest) = (w, rest) := by
  induction w with
  | nil => exact numberRest_nil hrest
  | cons c s ih =>
    have ih := ih fun d hd => hs d (List.mem_cons_of_mem c hd)
    have hdigit : ∀ c ∈ digits, c ≠ '\x27' ∧
        (c == 'e' || c == 'E' || c == 'p' || c == 'P') = false ∧ c.isAlphanum = true :=
      List.forall_iff_forall_mem.mp (by decide)
    obtain ⟨hquote, hexponent, hpart⟩ := hdigit c (hs c List.mem_cons_self)
    rw [List.cons_append, numberRest.eq_def]
    split
    · rename_i heq
      exact absurd (List.cons.inj heq).1 hquote
    · rename_i heq
      obtain ⟨rfl, hmore⟩ := List.cons.inj heq
      rw [hmore] at ih
      rw [if_neg (by simp [hexponent]), if_pos (by simp [hpart]), ih]
    · rename_i heq
      obtain ⟨rfl, hmore⟩ := List.cons.inj heq
      obtain ⟨rfl, rfl⟩ := List.append_eq_nil_iff.mp hmore
      rw [if_pos (by simp [hpart])]
    · rename_i heq
      cases heq

/-- **A number is read up to its end.** -/
theorem firstToken_number (hw : Bound w) (hne : w ≠ []) (hrest : Breaks rest) :
    firstToken (w ++ rest) = (.number, w, rest) := by
  obtain ⟨c, s, rfl⟩ := List.exists_cons_of_ne_nil hne
  obtain ⟨hc, hs⟩ := List.forall_mem_cons.mp hw
  have hfirst : firstToken (c :: (s ++ rest)) =
      (.number, c :: (numberRest (s ++ rest)).1, (numberRest (s ++ rest)).2) := by
    simp only [digits, List.mem_cons, List.not_mem_nil, or_false] at hc
    rcases hc with rfl | rfl | rfl | rfl | rfl | rfl | rfl | rfl | rfl | rfl <;> rfl
  rw [List.cons_append, hfirst, numberRest_digits hs hrest]

/-- The marks but for braces that stand for themselves, whatever comes behind. -/
def plainMarks : List Char := ['(', ')', '<', '>', ',', ';', ':', '*', '&', '=', '~', '[', ']']

theorem firstToken_mark (hc : c ∈ plainMarks) (cs : List Char) :
    firstToken (c :: cs) = (.mark, [c], cs) := by
  simp only [plainMarks, List.mem_cons, List.not_mem_nil, or_false] at hc
  rcases hc with rfl | rfl | rfl | rfl | rfl | rfl | rfl | rfl | rfl | rfl | rfl | rfl | rfl <;> rfl

/-! ## 3. Simple tokens -/

/-- Blank space as it is written. -/
def Gap (lead : List Char) : Prop := ∀ x ∈ lead, x = ' ' ∨ x = '\n'

instance (lead : List Char) : Decidable (Gap lead) :=
  List.decidableBAll (fun x => x = ' ' ∨ x = '\n') lead

theorem Gap.isSpace {lead : List Char} (h : Gap lead) : ∀ x ∈ lead, isSpace x = true := by
  intro x hx
  rcases h x hx with rfl | rfl <;> decide

/-- A word, a number, or a mark that stands for itself, behind spaces or line feeds. -/
structure Token.Simple (t : Token) : Prop where
  lead : Gap t.lead
  text : t.sort = .word ∧ isWord t.text = true ∨
    t.sort = .number ∧ Bound t.text ∧ t.text ≠ [] ∨
    t.sort = .mark ∧ ∃ c ∈ plainMarks, t.text = [c]

/-- A token does not run into the next. -/
def Token.Apart (t u : Token) : Prop := t.sort = .mark ∨ u.lead ≠ [] ∨ u.sort = .mark

theorem isSpace_of_start (hc : isIdentifierStart c = true) : isSpace c = false := by
  have hblank := Text.isBlank_of_part (Text.isIdentifierPart_of_start hc)
  have hspace : c ≠ ' ' := ne_of_start hc (by decide)
  simp only [Text.isBlank, Bool.or_eq_false_iff] at hblank
  rw [isSpace, Bool.or_eq_false_iff]
  exact ⟨hblank.1.1.1.1.1.1.1.1.1.1, beq_eq_false_iff_ne.mpr hspace⟩

theorem Token.Simple.shows (h : t.Simple) : ∀ x ∈ (t.text ++ rest).head?, Shows x := by
  have hmarks : ∀ c ∈ plainMarks, isSpace c = false ∧ c ≠ '\\' :=
    List.forall_iff_forall_mem.mp (by decide)
  have hdigits : ∀ c ∈ digits, isSpace c = false ∧ c ≠ '\\' :=
    List.forall_iff_forall_mem.mp (by decide)
  obtain ⟨-, hword⟩ | ⟨-, hnumber, hne⟩ | ⟨-, c, hc, htext⟩ := h.text
  · obtain ⟨c, cs, htext⟩ := List.exists_cons_of_ne_nil (Text.ne_nil_of_isWord hword)
    rw [htext] at hword ⊢
    have hstart := (Text.isWord_cons.mp hword).1
    intro x hx
    obtain rfl := Option.some.inj hx
    exact ⟨isSpace_of_start hstart, ne_of_start hstart (by decide)⟩
  · obtain ⟨c, cs, htext⟩ := List.exists_cons_of_ne_nil hne
    rw [htext] at hnumber ⊢
    intro x hx
    obtain rfl := Option.some.inj hx
    exact hdigits c (hnumber c List.mem_cons_self)
  · rw [htext]
    intro x hx
    obtain rfl := Option.some.inj hx
    exact hmarks c hc

theorem Token.Simple.ne_nil (h : t.Simple) : t.text ≠ [] := by
  obtain ⟨-, hword⟩ | ⟨-, -, hne⟩ | ⟨-, c, -, htext⟩ := h.text
  · exact Text.ne_nil_of_isWord hword
  · exact hne
  · rw [htext]
    exact List.cons_ne_nil c []

/-- A simple token is read where nothing runs into it. -/
theorem Token.Simple.first (h : t.Simple) (hrest : t.sort = .mark ∨ Breaks rest) :
    firstToken (t.text ++ rest) = (t.sort, t.text, rest) := by
  obtain ⟨hsort, hword⟩ | ⟨hsort, hnumber, hne⟩ | ⟨hsort, c, hc, htext⟩ := h.text
  · rw [hsort] at hrest ⊢
    exact firstToken_word hword (hrest.resolve_left nofun)
  · rw [hsort] at hrest ⊢
    exact firstToken_number hnumber hne (hrest.resolve_left nofun)
  · rw [hsort, htext]
    exact firstToken_mark hc rest

theorem Token.Simple.lexes (h : t.Simple) (hrest : t.sort = .mark ∨ Breaks rest) :
    Lexes (t.lead ++ t.text ++ rest) [t] rest := by
  rw [List.append_assoc]
  refine .token h.lead.isSpace h.shows h.ne_nil ?_ (h.first hrest)
  obtain ⟨hsort, -⟩ | ⟨hsort, -⟩ | ⟨hsort, -⟩ := h.text <;> rw [hsort] <;> nofun

/-- Where a token is apart from the next, the text breaks behind it. -/
theorem breaks_of_apart (hu : u.Simple) (h : t.Apart u) (cs : List Char) :
    t.sort = .mark ∨ Breaks (u.lead ++ u.text ++ cs) := by
  refine or_iff_not_imp_left.mpr fun hmark => ?_
  cases hlead : u.lead with
  | cons c lead =>
    have hc := hu.lead c (by rw [hlead]; exact List.mem_cons_self)
    exact breaks_of_mem (by rcases hc with rfl | rfl <;> decide) _
  | nil =>
    have hsort : u.sort = .mark := (h.resolve_left hmark).resolve_left (not_not.mpr hlead)
    obtain ⟨hword, -⟩ | ⟨hnumber, -⟩ | ⟨-, c, hc, htext⟩ := hu.text
    · rw [hsort] at hword
      cases hword
    · rw [hsort] at hnumber
      cases hnumber
    · have hall : ∀ c ∈ plainMarks, c ∈ breakers := List.forall_iff_forall_mem.mp (by decide)
      rw [htext]
      exact breaks_of_mem (hall c hc) cs

/-- Simple tokens of which none runs into the next. -/
structure Clear (ts : List Token) : Prop where
  simple : ∀ t ∈ ts, t.Simple
  apart : ts.IsChain Token.Apart

/-- The first token runs into nothing in front of it. -/
def StandsOff (ts : List Token) : Prop := ∀ t ∈ ts.head?, t.lead ≠ [] ∨ t.sort = .mark

theorem StandsOff.mark (ht : t.sort = .mark) : StandsOff (t :: ts) := by
  rintro u ⟨⟩
  exact .inr ht

theorem StandsOff.lead (ht : t.lead ≠ []) : StandsOff (t :: ts) := by
  rintro u ⟨⟩
  exact .inl ht

theorem Clear.nil : Clear [] := ⟨List.forall_mem_nil _, .nil⟩

theorem Clear.cons (ht : t.Simple) (h : t.sort = .mark ∨ StandsOff ts) (hts : Clear ts) :
    Clear (t :: ts) := by
  refine ⟨List.forall_mem_cons.mpr ⟨ht, hts.simple⟩, ?_⟩
  cases ts with
  | nil => exact .singleton t
  | cons u us => exact .cons_cons (h.imp_right fun h => h u rfl) hts.apart

theorem Clear.append (hts : Clear ts) (hus : Clear us) (h : StandsOff us) : Clear (ts ++ us) := by
  induction ts with
  | nil => exact hus
  | cons t ts ih =>
    obtain ⟨ht, hsimple⟩ := List.forall_mem_cons.mp hts.simple
    refine .cons ht ?_ (ih ⟨hsimple, hts.apart.tail⟩)
    cases ts with
    | nil => exact .inr h
    | cons u ts =>
      refine (List.isChain_cons_cons.mp hts.apart).1.imp_right fun hu x hx => ?_
      obtain rfl := Option.some.inj hx
      exact hu

/-- A word behind a blank space. -/
abbrev wordToken (lead w : List Char) : Token := ⟨.word, lead, w⟩

/-- A mark behind a blank space. -/
abbrev markToken (lead : List Char) (c : Char) : Token := ⟨.mark, lead, [c]⟩

/-- A number behind a blank space. -/
abbrev numberToken (lead w : List Char) : Token := ⟨.number, lead, w⟩

theorem Clear.word {lead : List Char} (hlead : Gap lead) (hw : isWord w = true)
    (h : StandsOff ts) (hts : Clear ts) : Clear (wordToken lead w :: ts) :=
  .cons ⟨hlead, .inl ⟨rfl, hw⟩⟩ (.inr h) hts

theorem Clear.mark {lead : List Char} (hlead : Gap lead) (hc : c ∈ plainMarks)
    (hts : Clear ts) : Clear (markToken lead c :: ts) :=
  .cons ⟨hlead, .inr (.inr ⟨rfl, c, hc, rfl⟩)⟩ (.inl rfl) hts

theorem Clear.number {lead : List Char} (hlead : Gap lead) (hw : Bound w) (hne : w ≠ [])
    (h : StandsOff ts) (hts : Clear ts) : Clear (numberToken lead w :: ts) :=
  .cons ⟨hlead, .inr (.inl ⟨rfl, hw, hne⟩)⟩ (.inr h) hts

/-- **Simple tokens are read as they are written.** -/
theorem lexes_clear (h : Clear ts) (hrest : Breaks rest) : Lexes (spelled ts ++ rest) ts rest := by
  induction ts with
  | nil => exact .nil
  | cons t ts ih =>
    obtain ⟨ht, hts⟩ := List.forall_mem_cons.mp h.simple
    rw [spelled_cons, List.append_assoc]
    refine (ht.lexes ?_).append (ih ⟨hts, h.apart.tail⟩)
    cases ts with
    | nil => exact .inr hrest
    | cons u us =>
      rw [spelled_cons, List.append_assoc]
      exact breaks_of_apart (hts u List.mem_cons_self) (List.isChain_cons_cons.mp h.apart).1 _

/-! ## 4. Other lines -/

/-- A line without a backslash, which would go on with the next. -/
def OneLine (cs : List Char) : Prop := ∀ c ∈ cs, c ≠ '\n' ∧ c ≠ '\\'

theorem lineComment_line (h : OneLine cs) (rest : List Char) :
    lineComment (cs ++ '\n' :: rest) = (cs, '\n' :: rest) := by
  induction cs with
  | nil => rfl
  | cons c cs ih =>
    obtain ⟨⟨hline, hslash⟩, hcs⟩ := List.forall_mem_cons.mp h
    rw [List.cons_append, lineComment.eq_def]
    split
    · rename_i heq
      exact absurd (List.cons.inj heq).1 hline
    · rename_i heq
      exact absurd (List.cons.inj heq).1 hslash
    · rename_i heq
      exact absurd (List.cons.inj heq).1 hslash
    · rename_i heq
      obtain ⟨rfl, rfl⟩ := List.cons.inj heq
      rw [ih hcs]
    · rename_i heq
      cases heq

/-- **A comment is read up to the end of its line.** -/
theorem lexes_comment {lead : List Char} (hlead : Gap lead) (h : OneLine cs)
    (rest : List Char) : Lexes (lead ++ ('/' :: '/' :: cs ++ '\n' :: rest))
      [⟨.comment, lead, '/' :: '/' :: cs⟩] ('\n' :: rest) := by
  refine Lexes.token (t := ⟨.comment, lead, '/' :: '/' :: cs⟩) hlead.isSpace ?_ (List.cons_ne_nil _ _)
    (fun h => nomatch h) ?_
  · intro x hx
    obtain rfl := Option.some.inj hx
    decide
  · change firstToken ('/' :: '/' :: (cs ++ '\n' :: rest)) = _
    rw [firstToken, lineComment_line h rest]

/-- The directive that a header begins with. -/
def pragmaToken (lead : List Char) : Token :=
  ⟨.directive "pragma".toList, lead, "#pragma once".toList⟩

theorem lexes_pragma {lead : List Char} (hlead : Gap lead) (rest : List Char) :
    Lexes (lead ++ ("#pragma once".toList ++ '\n' :: rest)) [pragmaToken lead] ('\n' :: rest) := by
  refine Lexes.token (t := pragmaToken lead) hlead.isSpace ?_ (by simp [pragmaToken]) ?_ rfl
  · intro x hx
    obtain rfl : '#' = x := Option.some.inj hx
    decide
  · exact fun h => absurd (TokenClass.directive.inj h) (by decide)

/-- The name of a file as it is included: `system` tells the delimiters. -/
def Operand (system : Bool) (name : List Char) : Prop :=
  if system then ∀ c ∈ name, c ≠ '>' ∧ c ≠ '\n' else ∀ c ∈ name, c ≠ '"' ∧ c ≠ '\\' ∧ c ≠ '\n'

/-- The operand of an include directive. -/
def operandToken (system : Bool) (name : List Char) : Token :=
  if system then ⟨.systemOperand, [' '], '<' :: (name ++ ['>'])⟩
  else ⟨.quotedOperand, [' '], '"' :: (name ++ ['"'])⟩

theorem quotedRest_name (h : ∀ c ∈ w, c ≠ '"' ∧ c ≠ '\\' ∧ c ≠ '\n') (rest : List Char) :
    quotedRest '"' (w ++ '"' :: rest) = some (w ++ ['"'], rest) := by
  induction w with
  | nil => rfl
  | cons c w ih =>
    obtain ⟨⟨hquote, hslash, hline⟩, hw⟩ := List.forall_mem_cons.mp h
    rw [List.cons_append, quotedRest.eq_def]
    split
    · rename_i heq
      exact absurd (List.cons.inj heq).1 hslash
    · rename_i heq
      obtain ⟨rfl, rfl⟩ := List.cons.inj heq
      rw [if_neg (by simpa using hquote), if_neg (by simpa using hline), ih hw]
      rfl
    · rename_i heq
      cases heq

theorem includeOperand_name {system : Bool} (h : Operand system w) (rest : List Char) :
    includeOperand ((operandToken system w).text ++ '\n' :: rest) =
      some ((operandToken system w).sort, (operandToken system w).text, '\n' :: rest) := by
  cases system with
  | true =>
    have htake : (w ++ '>' :: '\n' :: rest).takeWhile (fun c => c != '>' && c != '\n') = w := by
      rw [List.takeWhile_append_of_pos fun c hc => by simp [h c hc], List.takeWhile_cons_of_neg
        (by simp), List.append_nil]
    change includeOperand ('<' :: ((w ++ ['>']) ++ '\n' :: rest)) = _
    rw [List.append_assoc, List.singleton_append, includeOperand, htake, List.drop_left]
    rfl
  | false =>
    change includeOperand ('"' :: ((w ++ ['"']) ++ '\n' :: rest)) = _
    rw [List.append_assoc, List.singleton_append, includeOperand, quotedRest_name h]
    rfl

/-- An include directive. -/
def includeTokens (lead : List Char) (system : Bool) (name : List Char) : List Token :=
  [⟨.directive "include".toList, lead, "#include".toList⟩, operandToken system name]

theorem tokensFrom_operand {system : Bool} (h : Operand system w) (n : Nat) (rest : List Char) :
    tokensFrom (n + 1) true (' ' :: ((operandToken system w).text ++ '\n' :: rest)) =
      operandToken system w :: tokensFrom n false ('\n' :: rest) := by
  have hread := includeOperand_name h rest
  have hsplit : splitSpace (' ' :: ((operandToken system w).text ++ '\n' :: rest)) =
      ([' '], (operandToken system w).text ++ '\n' :: rest) := by
    cases system <;> rfl
  rw [tokensFrom, hsplit]
  split
  · rename_i heq
    cases system <;> cases (Prod.mk.inj heq).2
  · rename_i heq
    obtain ⟨rfl, rfl⟩ := Prod.mk.inj heq
    dsimp only
    rw [if_pos (by decide), hread, Option.getD_some]
    cases system <;> rfl

/-- **An include directive is read with its operand.** -/
theorem lexes_include {lead : List Char} {system : Bool} (hlead : Gap lead)
    (h : Operand system w) (rest : List Char) :
    Lexes (spelled (includeTokens lead system w) ++ '\n' :: rest) (includeTokens lead system w)
      ('\n' :: rest) := by
  have htext : spelled (includeTokens lead system w) ++ '\n' :: rest =
      lead ++ ("#include".toList ++ ' ' :: ((operandToken system w).text ++ '\n' :: rest)) := by
    cases system <;> simp [includeTokens, operandToken]
  rw [htext]
  refine ⟨?_, fun n => ?_⟩
  · simp only [includeTokens, List.length_append, List.length_cons, List.length_nil]
    have : "#include".toList.length = 8 := rfl
    omega
  · have hlength : (includeTokens lead system w).length + n = n + 1 + 1 := by
      simp only [includeTokens, List.length_cons, List.length_nil]
      omega
    have hfirst : firstToken ("#include".toList ++
          ' ' :: ((operandToken system w).text ++ '\n' :: rest)) =
        (.directive "include".toList, "#include".toList,
          ' ' :: ((operandToken system w).text ++ '\n' :: rest)) := rfl
    rw [hlength, tokensFrom_token hlead.isSpace ?_ (by decide) hfirst]
    · exact congrArg _ (tokensFrom_operand h n rest)
    · intro x hx
      obtain rfl : '#' = x := Option.some.inj hx
      decide

end Scaffold.Cpp
