import Mathlib.Data.List.TakeWhile
import Scaffold.Text.Identifier

/-!
# Identifiers

* `isIdentifier` -- a letter or an underscore, then letters, digits and underscores, with
  letters and digits as Unicode has them (XID_Start, XID_Continue);
* `notMem_of_isIdentifier` -- any other character does not occur in one;
* `isWord` -- what the grammar takes for a word; `isIdentifier_iff`: **an identifier is a
  word without dollar signs**;
* `isIdentifierPart_of_start` -- what may begin a word may stand anywhere in it.

The grammar also takes the dollar sign for a letter. The language leaves that to the
compiler, so in an identifier it is none.
-/
namespace Scaffold.Text

/-- A letter or an underscore. -/
def beginsName (c : Char) : Bool := isIdentifierStart c && c != '$'

/-- A letter, a digit or an underscore. -/
def continuesName (c : Char) : Bool := isIdentifierPart c && c != '$'

/-- A letter or an underscore, followed by letters, digits and underscores. -/
def isIdentifier : List Char → Bool
  | [] => false
  | c :: cs => beginsName c && cs.all continuesName

theorem isIdentifier_cons {c : Char} {cs : List Char} :
    isIdentifier (c :: cs) = true ↔
      beginsName c = true ∧ ∀ x ∈ cs, continuesName x = true := by
  unfold isIdentifier
  rw [Bool.and_eq_true, List.all_eq_true]

theorem ne_nil_of_isIdentifier {cs : List Char} (h : isIdentifier cs = true) : cs ≠ [] := by
  rintro rfl
  cases h

/-- What is no letter, digit or underscore does not occur in an identifier. -/
theorem notMem_of_isIdentifier {cs : List Char} (h : isIdentifier cs = true) {c : Char}
    (hc : (beginsName c || continuesName c) = false) : c ∉ cs := by
  obtain ⟨hbegins, hcontinues⟩ := Bool.or_eq_false_iff.mp hc
  cases cs with
  | nil => exact List.not_mem_nil
  | cons a as =>
    obtain ⟨ha, has⟩ := isIdentifier_cons.mp h
    intro hmem
    rcases List.mem_cons.mp hmem with rfl | hmem
    · rw [ha] at hbegins
      cases hbegins
    · rw [has c hmem] at hcontinues
      cases hcontinues

theorem isIdentifier_append {a b : List Char} (ha : a ≠ []) :
    isIdentifier (a ++ b) = true ↔ isIdentifier a = true ∧ ∀ x ∈ b, continuesName x = true := by
  obtain ⟨c, cs, rfl⟩ := List.exists_cons_of_ne_nil ha
  rw [List.cons_append, isIdentifier_cons, isIdentifier_cons, List.forall_mem_append, and_assoc]

/-! ## 1. Words -/

/-- A word as the grammar reads it, keywords included. -/
def isWord : List Char → Bool
  | [] => false
  | c :: cs => isIdentifierStart c && cs.all isIdentifierPart

theorem isWord_cons {c : Char} {cs : List Char} :
    isWord (c :: cs) = true ↔
      isIdentifierStart c = true ∧ ∀ x ∈ cs, isIdentifierPart x = true := by
  unfold isWord
  rw [Bool.and_eq_true, List.all_eq_true]

theorem ne_nil_of_isWord {cs : List Char} (h : isWord cs = true) : cs ≠ [] := by
  rintro rfl
  cases h

theorem beginsName_iff {c : Char} :
    beginsName c = true ↔ isIdentifierStart c = true ∧ c ≠ '$' := by
  simp [beginsName]

theorem continuesName_iff {c : Char} :
    continuesName c = true ↔ isIdentifierPart c = true ∧ c ≠ '$' := by
  simp [continuesName]

/-- **An identifier is a word without dollar signs.** -/
theorem isIdentifier_iff {cs : List Char} :
    isIdentifier cs = true ↔ isWord cs = true ∧ '$' ∉ cs := by
  cases cs with
  | nil => exact iff_of_false Bool.false_ne_true fun h => Bool.false_ne_true h.1
  | cons c cs =>
    rw [isIdentifier_cons, isWord_cons, beginsName_iff, List.mem_cons, not_or]
    simp only [continuesName_iff]
    constructor
    · rintro ⟨⟨hstart, hc⟩, hcs⟩
      exact ⟨⟨hstart, fun x hx => (hcs x hx).1⟩, hc.symm, fun hx => (hcs _ hx).2 rfl⟩
    · rintro ⟨⟨hstart, hcs⟩, hc, hdollar⟩
      exact ⟨⟨hstart, Ne.symm hc⟩, fun x hx => ⟨hcs x hx, fun heq => hdollar (heq ▸ hx)⟩⟩

/-! ## 2. Ranges -/

/-- One range lies in another. -/
def liesIn (r a : Nat × Nat) : Bool := Nat.ble r.1 a.1 && Nat.ble a.2 r.2

/-- Each range of one list lies in one of another, both in order. -/
def covers : List (Nat × Nat) → List (Nat × Nat) → Bool
  | as, [] => as.isEmpty
  | as, r :: rs => covers (as.dropWhile (liesIn r)) rs

theorem exists_of_covers {as rs : List (Nat × Nat)} (h : covers as rs = true) :
    ∀ a ∈ as, ∃ r ∈ rs, liesIn r a = true := by
  induction rs generalizing as with
  | nil =>
    rw [covers, List.isEmpty_iff] at h
    rw [h]
    exact fun _ ha => nomatch ha
  | cons r rs ih =>
    intro a ha
    rw [← List.takeWhile_append_dropWhile (p := liesIn r) (l := as)] at ha
    rcases List.mem_append.mp ha with ha | ha
    · exact ⟨r, List.mem_cons_self, List.mem_takeWhile_imp ha⟩
    · obtain ⟨r', hr', hin⟩ := ih h a ha
      exact ⟨r', List.mem_cons_of_mem r hr', hin⟩

/-- Where the ranges of one list lie in those of another, so do the code points. -/
theorem inRanges_of_covers {as rs : List (Nat × Nat)} (h : covers as rs = true) {n : Nat}
    (hn : inRanges as n = true) : inRanges rs n = true := by
  unfold inRanges at hn ⊢
  rw [List.any_eq_true] at hn ⊢
  obtain ⟨a, ha, hin⟩ := hn
  obtain ⟨r, hr, hlies⟩ := exists_of_covers h a ha
  refine ⟨r, hr, ?_⟩
  simp only [liesIn, Bool.and_eq_true, Nat.ble_eq, decide_eq_true_eq] at hin hlies ⊢
  omega

theorem covers_identifierStarts : covers identifierStarts identifierContinues = true := by
  decide +kernel

/-- What may begin a word may stand anywhere in it. -/
theorem isIdentifierPart_of_start {c : Char} (h : isIdentifierStart c = true) :
    isIdentifierPart c = true := by
  unfold isIdentifierStart at h
  unfold isIdentifierPart
  simp only [Bool.or_eq_true, Bool.and_eq_true, Char.isAlphanum] at h ⊢
  rcases h with ((h | h) | h) | ⟨hbeyond, h⟩
  · exact .inl (.inl (.inl (.inl h)))
  · exact .inl (.inl (.inr h))
  · exact .inl (.inr h)
  · exact .inr ⟨hbeyond, inRanges_of_covers covers_identifierStarts h⟩

theorem continuesName_of_begins {c : Char} (h : beginsName c = true) : continuesName c = true := by
  obtain ⟨hstart, hc⟩ := beginsName_iff.mp h
  exact continuesName_iff.mpr ⟨isIdentifierPart_of_start hstart, hc⟩

theorem isIdentifierPart_of_isWord {cs : List Char} (h : isWord cs = true) :
    ∀ x ∈ cs, isIdentifierPart x = true := by
  cases cs with
  | nil => exact fun _ hx => nomatch hx
  | cons c cs =>
    obtain ⟨hstart, hcs⟩ := isWord_cons.mp h
    exact List.forall_mem_cons.mpr ⟨isIdentifierPart_of_start hstart, hcs⟩

theorem isWord_append {a b : List Char} (ha : isWord a = true)
    (hb : ∀ x ∈ b, isIdentifierPart x = true) : isWord (a ++ b) = true := by
  obtain ⟨c, cs, rfl⟩ := List.exists_cons_of_ne_nil (ne_nil_of_isWord ha)
  obtain ⟨hstart, hcs⟩ := isWord_cons.mp ha
  exact isWord_cons.mpr ⟨hstart, List.forall_mem_append.mpr ⟨hcs, hb⟩⟩

/-- Words run together are a word. -/
theorem isWord_flatten {ws : List (List Char)} (hws : ws ≠ []) (h : ∀ w ∈ ws, isWord w = true) :
    isWord ws.flatten = true := by
  obtain ⟨w, ws, rfl⟩ := List.exists_cons_of_ne_nil hws
  obtain ⟨hw, hws⟩ := List.forall_mem_cons.mp h
  refine isWord_append hw fun x hx => ?_
  obtain ⟨v, hv, hx⟩ := List.mem_flatten.mp hx
  exact isIdentifierPart_of_isWord (hws v hv) x hx

end Scaffold.Text
