import Mathlib.Data.List.Basic
import Scaffold.Text.Blank

/-!
# Trimmed texts and their lines

* `trim_eq_self`, `trim_trim` -- when there is nothing to trim;
* `linesFrom_append` -- **a line feed cuts the lines of a text in two**;
* `notMem_of_mem_lines` -- no line has a line feed in it;
* `lines_unlines` -- **lines that are written are read back**;
* `infix_lineFeed` -- what has no line feed occurs on one side of it.
-/
namespace Scaffold.Text

/-! ## 1. Trimming -/

theorem dropEndWhile_append_of_pos {p : Char → Bool} {c : Char} (h : p c = true)
    (cs : List Char) : dropEndWhile p (cs ++ [c]) = dropEndWhile p cs := by
  unfold dropEndWhile
  rw [List.reverse_append, List.reverse_singleton, List.singleton_append,
    List.dropWhile_cons_of_pos h]

theorem dropEndWhile_append_of_neg {p : Char → Bool} {c : Char} (h : p c = false)
    (cs : List Char) : dropEndWhile p (cs ++ [c]) = cs ++ [c] := by
  unfold dropEndWhile
  rw [List.reverse_append, List.reverse_singleton, List.singleton_append,
    List.dropWhile_cons_of_neg (by simp [h]), List.reverse_cons, List.reverse_reverse]

theorem dropEndWhile_isPrefix (p : Char → Bool) (cs : List Char) : dropEndWhile p cs <+: cs := by
  unfold dropEndWhile
  rw [← List.reverse_suffix, List.reverse_reverse]
  exact List.dropWhile_suffix p

theorem mem_of_mem_trim {c : Char} {cs : List Char} (h : c ∈ trim cs) : c ∈ cs :=
  (List.dropWhile_suffix isBlank).mem ((dropEndWhile_isPrefix isBlank _).mem h)

/-- A blank at the end does not count. -/
theorem trim_append_blank {c : Char} (h : isBlank c = true) (cs : List Char) :
    trim (cs ++ [c]) = trim cs := by
  unfold trim
  rw [List.dropWhile_append]
  split
  · rename_i hempty
    rw [List.isEmpty_iff.mp hempty, List.dropWhile_cons_of_pos h]
    rfl
  · exact dropEndWhile_append_of_pos h _

theorem trim_cons_blank {c : Char} (h : isBlank c = true) (cs : List Char) :
    trim (c :: cs) = trim cs := by
  unfold trim
  rw [List.dropWhile_cons_of_pos h]

/-- There is nothing to trim between two characters that are not blank. -/
theorem trim_eq_self {a z : Char} (ha : isBlank a = false) (hz : isBlank z = false)
    (cs : List Char) : trim (a :: (cs ++ [z])) = a :: (cs ++ [z]) := by
  unfold trim
  rw [List.dropWhile_cons_of_neg (by simp [ha])]
  exact dropEndWhile_append_of_neg hz (a :: cs)

/-- Nothing is trimmed twice. -/
theorem trim_trim (cs : List Char) : trim (trim cs) = trim cs := by
  have hhead : (trim cs).dropWhile isBlank = trim cs := by
    cases hcs : cs.dropWhile isBlank with
    | nil => simp [trim, hcs, dropEndWhile]
    | cons a as =>
      have ha : isBlank a = false := by
        have := List.head_dropWhile_not (p := isBlank) (l := cs) (by simp [hcs])
        simpa [hcs] using this
      obtain ⟨tail, htail⟩ : ∃ tail, trim cs = a :: tail := by
        unfold trim
        rw [hcs]
        unfold dropEndWhile
        rw [List.reverse_cons, List.dropWhile_append]
        split
        · rw [List.dropWhile_cons_of_neg (by simp [ha])]
          exact ⟨[], rfl⟩
        · exact ⟨_, by rw [List.reverse_append]; rfl⟩
      rw [htail, List.dropWhile_cons_of_neg (by simp [ha])]
  have hend : dropEndWhile isBlank (trim cs) = trim cs := by
    unfold trim dropEndWhile
    rw [List.reverse_reverse]
    congr 1
    cases hcs : (cs.dropWhile isBlank).reverse.dropWhile isBlank with
    | nil => rfl
    | cons a as =>
      have ha : isBlank a = false := by
        have := List.head_dropWhile_not (p := isBlank) (l := (cs.dropWhile isBlank).reverse) (by simp [hcs])
        simpa [hcs] using this
      rw [List.dropWhile_cons_of_neg (by simp [ha])]
  calc trim (trim cs) = dropEndWhile isBlank ((trim cs).dropWhile isBlank) := rfl
    _ = dropEndWhile isBlank (trim cs) := by rw [hhead]
    _ = trim cs := hend

/-! ## 2. Lines -/

/-- The rest of a line joins what has been begun of it. -/
theorem linesFrom_of_notMem {cs : List Char} (h : '\n' ∉ cs) (begun : List Char) :
    linesFrom begun cs = if begun = [] ∧ cs = [] then [] else [begun.reverse ++ cs] := by
  induction cs generalizing begun with
  | nil => by_cases hb : begun = [] <;> simp [linesFrom, hb]
  | cons c cs ih =>
    have hc : c ≠ '\n' := fun e => h (e ▸ List.mem_cons_self)
    have hcs : '\n' ∉ cs := fun hm => h (List.mem_cons_of_mem c hm)
    have hstep : linesFrom begun (c :: cs) = linesFrom (c :: begun) cs := by
      rw [linesFrom]
      exact fun e => hc e
    rw [hstep, ih hcs]
    simp

/-- The line under way ends at a line feed, and the lines behind it start
afresh. -/
theorem linesFrom_append {cs : List Char} (h : '\n' ∉ cs) (begun rest : List Char) :
    linesFrom begun (cs ++ '\n' :: rest) =
      (dropReturn (cs.reverse ++ begun)).reverse :: linesFrom [] rest := by
  induction cs generalizing begun with
  | nil => simp [linesFrom]
  | cons c cs ih =>
    have hc : c ≠ '\n' := fun e => h (e ▸ List.mem_cons_self)
    have hcs : '\n' ∉ cs := fun hm => h (List.mem_cons_of_mem c hm)
    have hstep : linesFrom begun (c :: (cs ++ '\n' :: rest)) =
        linesFrom (c :: begun) (cs ++ '\n' :: rest) := by
      rw [linesFrom]
      exact fun e => hc e
    rw [List.cons_append, hstep, ih hcs]
    simp

theorem lines_append {cs : List Char} (h : '\n' ∉ cs) (rest : List Char) :
    lines (cs ++ '\n' :: rest) = (dropReturn cs.reverse).reverse :: lines rest := by
  unfold lines
  rw [linesFrom_append h, List.append_nil]

/-- A text without line feeds, or its first line and what follows that. -/
theorem eq_or_split_lineFeed (cs : List Char) :
    '\n' ∉ cs ∨ ∃ line rest, '\n' ∉ line ∧ cs = line ++ '\n' :: rest := by
  by_cases h : '\n' ∈ cs
  · obtain ⟨line, rest, rfl, hline⟩ := List.eq_append_cons_of_mem h
    exact .inr ⟨line, rest, hline, rfl⟩
  · exact .inl h

/-- No line has a line feed in it. -/
theorem notMem_of_mem_lines : ∀ {cs line : List Char}, line ∈ lines cs → '\n' ∉ line := by
  intro cs
  induction hn : cs.length using Nat.strongRecOn generalizing cs with
  | _ n ih =>
    intro line hline
    rcases eq_or_split_lineFeed cs with hcs | ⟨first, rest, hfirst, rfl⟩
    · unfold lines at hline
      rw [linesFrom_of_notMem hcs] at hline
      split at hline
      · simp at hline
      · simp only [List.reverse_nil, List.nil_append, List.mem_singleton] at hline
        exact hline ▸ hcs
    · rw [lines_append hfirst] at hline
      rcases List.mem_cons.mp hline with rfl | hline
      · intro hmem
        rw [List.mem_reverse] at hmem
        have : '\n' ∈ first.reverse := by
          unfold dropReturn at hmem
          split at hmem
          · rename_i tail heq
            rw [heq]
            exact List.mem_cons_of_mem _ hmem
          · exact hmem
        exact hfirst (List.mem_reverse.mp this)
      · refine ih rest.length ?_ rfl hline
        simp at hn
        omega

/-! ## 3. Lines that are written -/

theorem toList_unlines (ls : List String) :
    (unlines ls).toList = ls.flatMap fun l => l.toList ++ ['\n'] := by
  unfold unlines
  rw [String.toList_join, List.flatMap_map]
  congr 1
  funext l
  simp

/-- Lines that are written are read back, whatever is written behind them. -/
theorem lines_unlines_append {ls more : List String}
    (h : ∀ l ∈ ls, '\n' ∉ l.toList ∧ l.toList.getLast? ≠ some '\r') :
    lines (unlines (ls ++ more)).toList = ls.map String.toList ++ lines (unlines more).toList := by
  rw [toList_unlines, toList_unlines, List.flatMap_append]
  induction ls with
  | nil => rfl
  | cons l ls ih =>
    obtain ⟨hline, hreturn⟩ := h l List.mem_cons_self
    have hkeep : dropReturn l.toList.reverse = l.toList.reverse := by
      unfold dropReturn
      split
      · rename_i cs heq
        refine absurd ?_ hreturn
        rw [← List.head?_reverse, heq]
        rfl
      · rfl
    rw [List.flatMap_cons, List.append_assoc, List.append_assoc, List.singleton_append,
      lines_append hline, hkeep, List.reverse_reverse,
      ih fun l' hl' => h l' (List.mem_cons_of_mem l hl'), List.map_cons, List.cons_append]

/-- **Lines that are written are read back.** -/
theorem lines_unlines {ls : List String}
    (h : ∀ l ∈ ls, '\n' ∉ l.toList ∧ l.toList.getLast? ≠ some '\r') :
    lines (unlines ls).toList = ls.map String.toList := by
  have hread := @lines_unlines_append ls [] h
  rwa [List.append_nil, show lines (unlines []).toList = [] by decide, List.append_nil] at hread

/-! ## 4. Occurrences -/

/-- What has no line feed in it occurs on one side of a line feed. -/
theorem infix_lineFeed {needle a b : List Char} (hn : '\n' ∉ needle) :
    needle <:+: a ++ '\n' :: b ↔ needle <:+: a ∨ needle <:+: b := by
  constructor
  · rintro ⟨u, v, h⟩
    rw [List.append_assoc, List.append_eq_append_iff] at h
    rcases h with ⟨w, ha, hw⟩ | ⟨w, hu, hw⟩
    · -- the occurrence begins in `a`
      rw [List.append_eq_append_iff] at hw
      rcases hw with ⟨x, hx, hv⟩ | ⟨x, hx, hv⟩
      · exact .inl ⟨u, x, by rw [ha, hx, List.append_assoc]⟩
      · cases x with
        | nil => exact .inl ⟨u, [], by rw [ha, hx]; simp⟩
        | cons c x =>
          obtain ⟨rfl, _⟩ := List.cons.inj hv
          exact absurd (hx ▸ by simp) hn
    · -- it begins behind `a`
      cases w with
      | nil =>
        cases needle with
        | nil => exact .inl ⟨[], a, rfl⟩
        | cons c needle =>
          obtain ⟨rfl, _⟩ := List.cons.inj hw
          exact absurd List.mem_cons_self hn
      | cons c w =>
        obtain ⟨_, hb⟩ := List.cons.inj hw
        exact .inr ⟨w, v, by rw [hb, List.append_assoc]; rfl⟩
  · rintro (⟨u, v, rfl⟩ | ⟨u, v, rfl⟩)
    · exact ⟨u, v ++ '\n' :: b, by simp⟩
    · exact ⟨a ++ '\n' :: u, v, by simp⟩

end Scaffold.Text
