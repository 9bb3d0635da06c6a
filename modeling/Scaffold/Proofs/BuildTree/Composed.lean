import Scaffold.Proofs.BuildTree.Written

/-!
# Lists that are written again

A list that was written and then extended, whatever its names are like, keeps what it
declares and shows when it is written again.

* `shows_iff_filled` -- a declaration shows in a line or not at all;
* `Composed` -- a text of given lines and of declarations behind them;
* `Older` -- a list that builds the same, with fewer include directories;
* `Composed.declared_again`, `Composed.shows_again` -- **writing a composed text again
  changes neither what it declares nor what it shows**.
-/
namespace Scaffold.Artifact.BuildList

variable {base : List (List Char)} {b b' : BuildList} {t c : String}

/-! ## 1. Lines of a text -/

/-- A declaration shows in a text if it shows in a line of it. -/
theorem shows_iff_filled (hc : '\n' ∉ c.toList) (text : List Char) :
    Shows text c ↔ ∃ l ∈ filled text, Shows l c := by
  have hneedle := notMem_declaration hc
  have hnever : ¬Shows [] c := fun h => declaration_ne_nil c (List.infix_nil.mp h)
  induction hn : text.length using Nat.strongRecOn generalizing text with
  | _ n ih =>
    rcases Text.eq_or_split_lineFeed text with ht | ⟨line, rest, hline, rfl⟩
    · by_cases hne : text = []
      · subst hne
        simp [hnever]
      · rw [filled_of_notMem ht hne]
        simp
    · have hlt : rest.length < n := by
        simp at hn
        omega
      have hfirst : Shows line c ↔ ∃ l ∈ filled line, Shows l c := by
        by_cases hne : line = []
        · subst hne
          simp [hnever]
        · rw [filled_of_notMem hline hne]
          simp
      have hsplit : Shows (line ++ '\n' :: rest) c ↔ Shows line c ∨ Shows rest c :=
        Text.infix_lineFeed hneedle
      have hrest : Shows rest c ↔ ∃ l ∈ filled rest, Shows l c := ih _ hlt rest rfl
      rw [hsplit, filled_append, hfirst, hrest]
      simp only [List.mem_append, or_and_right, exists_or]

/-- Of the lines that do not depend on the subdirectories, only files can be read as
declarations. -/
theorem declared_bodyLines (b : BuildList) :
    b.bodyLines.filterMap declared? = b.unitTests.filterMap fun f => declared? f.toList := by
  have hempty : ∀ ls : List (List Char),
      (ls.filter fun l => !l.isEmpty).filterMap declared? = ls.filterMap declared? := by
    intro ls
    rw [List.filterMap_filter]
    refine List.filterMap_congr fun l _ => ?_
    cases l with
    | nil => exact declared?_nil.symm
    | cons z l => rfl
  have hnone : ∀ ls : List String, (∀ l ∈ ls, declared? l.toList = none) →
      (ls.map String.toList).filterMap declared? = [] := by
    intro ls h
    rw [List.filterMap_map]
    exact List.filterMap_eq_nil_iff.mpr h
  have hroot : ∀ p : Path, declared? (fromRoot p).toList = none := by
    intro p
    unfold fromRoot
    rw [String.toList_append]
    exact declared?_of_head (c := '$') rfl (by decide)
  have hset : declared? ("set(UT_NAME " ++ b.testName ++ ")").toList = none := by
    rw [String.toList_append, String.toList_append]
    exact declared?_of_head (c := 's') rfl (by decide)
  have htests : ((b.unitTests.map fun f => "    " ++ f).map String.toList).filterMap declared? =
      b.unitTests.filterMap fun f => declared? f.toList := by
    rw [List.map_map, List.filterMap_map]
    exact List.filterMap_congr fun f _ => declared?_indented f
  unfold bodyLines
  rw [hempty]
  unfold body files
  simp only [List.map_append, List.filterMap_append, htests]
  rw [hnone preamble fun l hl => declared?_fixedLines l (List.mem_append_left _ hl),
    hnone (b.sources.map fromRoot) (by simpa using fun p _ => hroot p), hnone [")", ""] (by decide),
    hnone ["target_link_libraries(" ++ target ++ " PRIVATE GTest::gtest_main GTest::gmock)", "",
      "gtest_discover_tests(" ++ target ++ ")"] (by decide +kernel), hnone _ ?_, hnone _ ?_]
  · simp
  · split
    · exact fun l hl => absurd hl List.not_mem_nil
    · intro l hl
      rcases List.mem_append.mp hl with hl | hl
      · rcases List.mem_cons.mp hl with rfl | hl
        · decide +kernel
        · obtain ⟨p, _, rfl⟩ := List.mem_map.mp hl
          exact hroot p
      · exact (by decide : ∀ l ∈ [")", ""], declared? l.toList = none) l hl
  · intro l hl
    simp only [List.mem_cons, List.not_mem_nil, or_false] at hl
    rcases hl with rfl | rfl | rfl | rfl | rfl
    · decide +kernel
    · decide
    · exact hset
    · decide
    · decide +kernel

/-! ## 2. Composed texts -/

/-- Up to empty lines, the text consists of the given lines and of declarations behind
them. -/
def Composed (base : List (List Char)) (t : String) : Prop :=
  ∃ names : List String, filled t.toList = base ++ names.map (fun c => (declaration c).toList) ∧
    ∀ c ∈ names, Trimmed c ∧ '\n' ∉ c.toList

/-- A list that is written is composed of its lines and its subdirectories. -/
theorem composed_text (hprinted : ∀ s ∈ b.printed, '\n' ∉ s.toList)
    (hsub : ∀ c ∈ b.subdirectories, Trimmed c ∧ '\n' ∉ c.toList) : Composed b.bodyLines b.text :=
  ⟨_, filled_text hprinted fun c hc => (hsub c hc).2, hsub⟩

/-- A further declaration keeps a text composed. -/
theorem Composed.extended (h : Composed base t) (hc : Trimmed c ∧ '\n' ∉ c.toList) :
    Composed base (extended t c) := by
  obtain ⟨names, hlines, hnames⟩ := h
  refine ⟨names ++ [c], ?_, fun x hx => ?_⟩
  · rw [filled_extended hc.2, hlines, List.map_append, List.map_singleton, List.append_assoc]
  · rcases List.mem_append.mp hx with hx | hx
    · exact hnames x hx
    · exact List.mem_singleton.mp hx ▸ hc

theorem declarations_composed {names : List String}
    (hlines : filled t.toList = base ++ names.map fun c => (declaration c).toList)
    (hnames : ∀ c ∈ names, Trimmed c ∧ '\n' ∉ c.toList) :
    declarations t.toList = base.filterMap declared? ++ names := by
  rw [declarations_eq_filled, hlines, List.filterMap_append, List.filterMap_map]
  congr 1
  exact (List.filterMap_congr fun c hc => declared?_declaration (hnames c hc).1).trans
    List.filterMap_some

/-! ## 3. Writing a list again -/

/-- The first list builds the same as the second one, with fewer include directories. -/
structure Older (b b' : BuildList) : Prop where
  testName : b.testName = b'.testName
  unitTests : b.unitTests = b'.unitTests
  sources : b.sources = b'.sources
  includeDirs : ∀ p ∈ b.includeDirs, p ∈ b'.includeDirs
  some : b.includeDirs ≠ []

theorem Older.bodyLines (h : Older b b') : ∀ l ∈ b.bodyLines, l ∈ b'.bodyLines := by
  have hsome' : b'.includeDirs ≠ [] := by
    obtain ⟨p, hp⟩ := List.exists_mem_of_ne_nil _ h.some
    exact List.ne_nil_of_mem (h.includeDirs p hp)
  have hbody : ∀ l ∈ b.body, l ∈ b'.body := by
    intro l hl
    unfold body files at hl ⊢
    rw [if_neg (by simpa using h.some)] at hl
    rw [if_neg (by simpa using hsome'), ← h.testName, ← h.unitTests, ← h.sources]
    simp only [List.mem_append, List.mem_cons, List.mem_map] at hl ⊢
    refine hl.imp_left fun hl => hl.imp_right fun hl => hl.imp_left fun hl => hl.imp_right ?_
    exact fun ⟨p, hp, heq⟩ => ⟨p, h.includeDirs p hp, heq⟩
  intro l hl
  obtain ⟨hmem, hne⟩ := List.mem_filter.mp hl
  obtain ⟨l', hl', rfl⟩ := List.mem_map.mp hmem
  exact List.mem_filter.mpr ⟨List.mem_map_of_mem (hbody l' hl'), hne⟩

variable (h : Composed b.bodyLines t) (holder : Older b b')
  (hsub : b'.subdirectories = declaredSubdirectories t)
  (hprinted : ∀ s ∈ b'.printed, '\n' ∉ s.toList)

include hsub in
theorem subdirectories_oneLine : ∀ c ∈ b'.subdirectories, Trimmed c ∧ '\n' ∉ c.toList := by
  intro c hc
  rw [hsub, mem_declaredSubdirectories] at hc
  exact trimmed_of_mem_declarations hc

include h holder hsub hprinted

/-- **A composed text that is written again declares the same.** -/
theorem Composed.declared_again : declaredSubdirectories b'.text = declaredSubdirectories t := by
  have hnames' := subdirectories_oneLine hsub
  obtain ⟨names, hlines, hnames⟩ := h
  have hfiles : b'.bodyLines.filterMap declared? = b.bodyLines.filterMap declared? := by
    rw [declared_bodyLines, declared_bodyLines, holder.unitTests]
  rw [declaredSubdirectories_eq, declarations_composed
    (filled_text hprinted fun c hc => (hnames' c hc).2) hnames', hsub, declaredSubdirectories_eq,
    declarations_composed hlines hnames, hfiles, eraseDups_append_again]

/-- **A composed text that is written again shows what it did.** -/
theorem Composed.shows_again (hc : '\n' ∉ c.toList) (hshows : Shows t.toList c) :
    Shows b'.text.toList c := by
  have hnames' := subdirectories_oneLine hsub
  have hlines' := filled_text hprinted fun c hc => (hnames' c hc).2
  obtain ⟨names, hlines, hnames⟩ := h
  obtain ⟨l, hl, hshows⟩ := (shows_iff_filled hc _).mp hshows
  refine (shows_iff_filled hc _).mpr ⟨l, ?_, hshows⟩
  rw [hlines] at hl
  rw [hlines']
  rcases List.mem_append.mp hl with hl | hl
  · exact List.mem_append_left _ (holder.bodyLines l hl)
  · obtain ⟨x, hx, rfl⟩ := List.mem_map.mp hl
    refine List.mem_append_right _ (List.mem_map_of_mem ?_)
    rw [hsub, mem_declaredSubdirectories, declarations_composed hlines hnames]
    exact List.mem_append_right _ hx

end Scaffold.Artifact.BuildList
