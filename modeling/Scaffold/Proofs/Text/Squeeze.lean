import Mathlib.Data.List.Basic
import Scaffold.Proofs.Text.Identifiers
import Scaffold.Text.Blank

/-!
# Texts in normal form

A text is in normal form if squeezing changes nothing: it stands on one line, with one
space between its words and none at either end. That can be told character by character.

* `spacing` -- what one more character makes of the place behind a text;
  `normal_iff`: **a text is in normal form just in case this ends behind a word**;
* `foldl_join` -- what is joined by spaces is in normal form if its parts are;
  `normal_squeeze`: so what is squeezed is;
* `Tight`, `walk_tight` -- between words a text without blanks at its ends either is in
  normal form or spoils the text around it;
* `visible_squeeze` -- squeezing loses no visible characters.
-/
namespace Scaffold.Text

variable {c : Char} {cs ds begun : List Char} {ws : List (List Char)} {b : Bool}

/-- Squeezing the text changes nothing. -/
def Normal (cs : List Char) : Prop := squeeze cs = cs

instance (cs : List Char) : Decidable (Normal cs) :=
  inferInstanceAs (Decidable (squeeze cs = cs))

/-! ## 1. Words -/

theorem isBlank_space : isBlank ' ' = true := by decide

theorem wordsFrom_word (hc : isBlank c = false) :
    wordsFrom begun (c :: cs) = wordsFrom (c :: begun) cs := by
  rw [wordsFrom, if_neg (by simp [hc])]

theorem wordsFrom_blank (hc : isBlank c = true) (hb : begun ≠ []) :
    wordsFrom begun (c :: cs) = begun.reverse :: wordsFrom [] cs := by
  rw [wordsFrom, if_pos hc, if_neg (by simpa using hb)]

theorem wordsFrom_gap (hc : isBlank c = true) : wordsFrom [] (c :: cs) = wordsFrom [] cs := by
  rw [wordsFrom, if_pos hc]
  rfl

/-- Words are not empty and have no blanks. -/
theorem wordsFrom_visible (hb : ∀ x ∈ begun, isBlank x = false) :
    ∀ w ∈ wordsFrom begun cs, w ≠ [] ∧ ∀ x ∈ w, isBlank x = false := by
  induction cs generalizing begun with
  | nil =>
    intro w hw
    rw [wordsFrom] at hw
    split at hw
    · cases hw
    · rename_i hne
      rw [List.mem_singleton.mp hw]
      exact ⟨by simpa using hne, fun x hx => hb x (List.mem_reverse.mp hx)⟩
  | cons c cs ih =>
    have hgap := @ih [] (List.forall_mem_nil _)
    cases hc : isBlank c with
    | false =>
      rw [wordsFrom_word hc]
      exact ih (List.forall_mem_cons.mpr ⟨hc, hb⟩)
    | true =>
      by_cases hne : begun = []
      · subst hne
        rwa [wordsFrom_gap hc]
      · rw [wordsFrom_blank hc hne]
        exact List.forall_mem_cons.mpr
          ⟨⟨by simpa using hne, fun x hx => hb x (List.mem_reverse.mp hx)⟩, hgap⟩

theorem words_visible : ∀ w ∈ words cs, w ≠ [] ∧ ∀ x ∈ w, isBlank x = false :=
  wordsFrom_visible (List.forall_mem_nil _)

/-- The visible characters of a text. -/
def visible (cs : List Char) : List Char := cs.filter fun c => !isBlank c

theorem visible_append : visible (cs ++ ds) = visible cs ++ visible ds := List.filter_append ..

/-- The words have the visible characters of a text. -/
theorem flatten_wordsFrom : (wordsFrom begun cs).flatten = begun.reverse ++ visible cs := by
  induction cs generalizing begun with
  | nil =>
    rw [wordsFrom]
    split
    · rename_i hempty
      rw [List.isEmpty_iff.mp hempty]
      rfl
    · exact List.flatten_cons.trans rfl
  | cons c cs ih =>
    cases hc : isBlank c with
    | false =>
      rw [wordsFrom_word hc, ih, visible, visible, List.filter_cons_of_pos (by simp [hc])]
      simp
    | true =>
      rw [visible, List.filter_cons_of_neg (by simp [hc])]
      by_cases hne : begun = []
      · subst hne
        rw [wordsFrom_gap hc, ih, visible]
      · rw [wordsFrom_blank hc hne, List.flatten_cons, ih, List.reverse_nil, List.nil_append,
          visible]

/-- **Squeezing loses no visible characters** and gives no new ones. -/
theorem visible_squeeze (cs : List Char) : visible (squeeze cs) = visible cs := by
  have hjoin : ∀ ws : List (List Char), (∀ w ∈ ws, ∀ x ∈ w, isBlank x = false) →
      visible ([' '].intercalate ws) = ws.flatten := by
    intro ws hws
    induction ws with
    | nil => rfl
    | cons w ws ih =>
      obtain ⟨hw, hws⟩ := List.forall_mem_cons.mp hws
      have hkeep : visible w = w := List.filter_eq_self.mpr fun x hx => by simp [hw x hx]
      by_cases hne : ws = []
      · subst hne
        rw [List.intercalate_singleton, hkeep]
        simp
      · rw [List.intercalate_cons_of_ne_nil hne, visible_append, visible_append, hkeep, ih hws,
          List.flatten_cons, (by decide : visible [' '] = []), List.append_nil]
  calc visible (squeeze cs) = (words cs).flatten :=
        hjoin _ fun w hw => (words_visible w hw).2
    _ = visible cs := by rw [words, flatten_wordsFrom, List.reverse_nil, List.nil_append]

/-! ## 2. Spacing -/

/-- One more character behind a text in normal form so far. The place is behind a space or
at the beginning (`some true`), or in a word (`some false`); there is no such place behind
a character that spoils the normal form. -/
def spacing : Option Bool → Char → Option Bool
  | none, _ => none
  | some gap, c =>
    if c == ' ' then (if gap then none else some true)
    else if isBlank c then none
    else some false

theorem spacing_word (hc : isBlank c = false) : spacing (some b) c = some false := by
  have hne : c ≠ ' ' := by
    rintro rfl
    rw [isBlank_space] at hc
    cases hc
  rw [spacing, if_neg (by simpa using hne), if_neg (by simp [hc])]

theorem foldl_none : cs.foldl spacing none = none := by
  induction cs with
  | nil => rfl
  | cons c cs ih => exact ih

theorem foldl_word (hc : isBlank c = false) :
    (c :: cs).foldl spacing (some b) = cs.foldl spacing (some false) := by
  rw [List.foldl_cons, spacing_word hc]

theorem foldl_blank (hc : isBlank c = true) (hne : c ≠ ' ' ∨ b = true) :
    (c :: cs).foldl spacing (some b) = none := by
  have hnone : spacing (some b) c = none := by
    unfold spacing
    dsimp only
    rcases hne with hne | rfl
    · rw [if_neg (by simpa using hne), if_pos hc]
    · simp [hc]
  rw [List.foldl_cons, hnone, foldl_none]

/-- A word leads to a place in a word. -/
theorem foldl_visible (hne : cs ≠ []) (h : ∀ x ∈ cs, isBlank x = false) :
    cs.foldl spacing (some b) = some false := by
  induction cs generalizing b with
  | nil => exact absurd rfl hne
  | cons c cs ih =>
    obtain ⟨hc, hcs⟩ := List.forall_mem_cons.mp h
    rw [foldl_word hc]
    by_cases hnil : cs = []
    · rw [hnil]
      rfl
    · exact ih hnil hcs

/-- What is joined by spaces leads to the end of a word if all of it does. -/
theorem foldl_join (hne : ws ≠ []) (h : ∀ w ∈ ws, w.foldl spacing (some true) = some false) :
    ([' '].intercalate ws).foldl spacing (some true) = some false := by
  induction ws with
  | nil => exact absurd rfl hne
  | cons w ws ih =>
    obtain ⟨hw, hws⟩ := List.forall_mem_cons.mp h
    by_cases hnil : ws = []
    · rw [hnil, List.intercalate_singleton, hw]
    · rw [List.intercalate_cons_of_ne_nil hnil, List.foldl_append, List.foldl_append, hw]
      exact ih hnil hws

/-- Where the spacing is right, squeezing what is behind a begun word changes nothing. -/
theorem join_wordsFrom : (begun ≠ [] → cs.foldl spacing (some false) = some false →
      [' '].intercalate (wordsFrom begun cs) = begun.reverse ++ cs) ∧
    (cs.foldl spacing (some true) = some false → [' '].intercalate (wordsFrom [] cs) = cs) := by
  induction cs generalizing begun with
  | nil =>
    refine ⟨fun hb _ => ?_, fun h => nomatch h⟩
    rw [wordsFrom, if_neg (by simpa using hb), List.intercalate_singleton, List.append_nil]
  | cons c cs ih =>
    cases hc : isBlank c with
    | false =>
      refine ⟨fun _ h => ?_, fun h => ?_⟩
      · rw [foldl_word hc] at h
        rw [wordsFrom_word hc, ih.1 (List.cons_ne_nil c begun) h]
        simp
      · rw [foldl_word hc] at h
        rw [wordsFrom_word hc, (@ih [c]).1 (List.cons_ne_nil c []) h]
        rfl
    | true =>
      refine ⟨fun hb h => ?_, fun h => ?_⟩
      · by_cases hspace : c = ' '
        · subst hspace
          have hrest : cs.foldl spacing (some true) = some false := h
          have hjoin := (@ih []).2 hrest
          have hne : wordsFrom [] cs ≠ [] := by
            intro hnil
            rw [hnil] at hjoin
            subst hjoin
            cases hrest
          rw [wordsFrom_blank hc hb, List.intercalate_cons_of_ne_nil hne, hjoin]
          simp
        · rw [foldl_blank hc (.inl hspace)] at h
          cases h
      · rw [foldl_blank hc (.inr rfl)] at h
        cases h

/-- What is joined of words is in normal form. -/
theorem normal_squeeze (cs : List Char) : Normal (squeeze cs) := by
  by_cases hnil : words cs = []
  · rw [squeeze, hnil]
    rfl
  · exact (@join_wordsFrom _ []).2 (foldl_join hnil fun w hw =>
      foldl_visible (words_visible w hw).1 (words_visible w hw).2)

/-- **A text is in normal form** if it is empty or its spacing is right. -/
theorem normal_iff : Normal cs ↔ cs = [] ∨ cs.foldl spacing (some true) = some false := by
  constructor
  · intro h
    by_cases hnil : words cs = []
    · refine .inl ?_
      rw [Normal, squeeze, hnil] at h
      exact h.symm
    · refine .inr ?_
      rw [← (h : squeeze cs = cs)]
      exact foldl_join hnil fun w hw =>
        foldl_visible (words_visible w hw).1 (words_visible w hw).2
  · rintro (rfl | h)
    · rfl
    · exact (@join_wordsFrom _ []).2 h

/-! ## 3. Tight texts -/

/-- A text that begins and ends with visible characters. -/
def Tight (cs : List Char) : Prop :=
  (∃ c ∈ cs.head?, isBlank c = false) ∧ ∃ c ∈ cs.getLast?, isBlank c = false

theorem Tight.ne_nil (h : Tight cs) : cs ≠ [] := by
  rintro rfl
  obtain ⟨⟨c, hc, -⟩, -⟩ := h
  cases hc

/-- **A tight text in a text with the right spacing** leads to the end of a word if it is in
normal form, and spoils it if not. -/
theorem walk_tight (h : Tight cs) (b : Bool) :
    cs.foldl spacing (some b) = if Normal cs then some false else none := by
  have hstart : cs.foldl spacing (some b) = cs.foldl spacing (some true) := by
    obtain ⟨c, hc, hvisible⟩ := h.1
    obtain ⟨rest, rfl⟩ : ∃ rest, cs = c :: rest := by
      cases cs with
      | nil => cases hc
      | cons d rest => exact ⟨rest, by rw [Option.some.inj hc]⟩
    rw [foldl_word hvisible, foldl_word hvisible]
  rw [hstart]
  split
  · rename_i hnormal
    exact (normal_iff.mp hnormal).resolve_left h.ne_nil
  · rename_i hnormal
    -- the last character leads to a word or nowhere
    obtain ⟨c, hc, hvisible⟩ := h.2
    obtain ⟨front, rfl⟩ := List.getLast?_eq_some_iff.mp hc
    rw [normal_iff, not_or] at hnormal
    have hspoilt := hnormal.2
    rw [List.foldl_append] at hspoilt ⊢
    cases hfront : front.foldl spacing (some true) with
    | none => rfl
    | some gap =>
      rw [hfront] at hspoilt
      exact absurd (spacing_word hvisible) hspoilt

/-! ## 4. Words of names -/

/-- The blank characters. -/
def blanks : List Char :=
  ['\t', '\n', '\x0b', '\x0c', '\r', ' ', '\u0085', '\u00a0', '\u1680', '\u2000', '\u2001',
   '\u2002', '\u2003', '\u2004', '\u2005', '\u2006', '\u2007', '\u2008', '\u2009', '\u200a',
   '\u2028', '\u2029', '\u202f', '\u205f', '\u3000']

theorem mem_blanks (h : isBlank c = true) : c ∈ blanks := by
  have hcode : c.toNat ∈ blanks.map Char.toNat := by
    simp only [isBlank, Bool.or_eq_true, Bool.and_eq_true, decide_eq_true_eq, beq_iff_eq] at h
    change c.toNat ∈ [9, 10, 11, 12, 13, 32, 0x85, 0xA0, 0x1680, 0x2000, 0x2001, 0x2002, 0x2003,
      0x2004, 0x2005, 0x2006, 0x2007, 0x2008, 0x2009, 0x200A, 0x2028, 0x2029, 0x202F, 0x205F,
      0x3000]
    simp only [List.mem_cons, List.not_mem_nil, or_false]
    omega
  obtain ⟨d, hd, heq⟩ := List.mem_map.mp hcode
  rwa [← Char.toNat_inj.mp heq]

/-- A character of a name is no blank. -/
theorem isBlank_of_part (h : isIdentifierPart c = true) : isBlank c = false := by
  have hblanks : (blanks.all fun c => !isIdentifierPart c) = true := by decide +kernel
  cases hc : isBlank c with
  | false => rfl
  | true =>
    have hnone := List.all_eq_true.mp hblanks c (mem_blanks hc)
    rw [h] at hnone
    cases hnone

theorem isBlank_of_isWord (h : isWord cs = true) : ∀ x ∈ cs, isBlank x = false :=
  fun x hx => isBlank_of_part (isIdentifierPart_of_isWord h x hx)

end Scaffold.Text
