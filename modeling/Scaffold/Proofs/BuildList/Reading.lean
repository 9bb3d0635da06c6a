import Scaffold.Proofs.BuildList.Declarations

/-!
# Reading a written build list

What `BuildList.text` writes is read back: its blocks, its declarations by
lines, and the declarations that show in it.

* `enumerated_written`, `included_text` -- the blocks of the executable and of its
  include directories;
* `Quiet` -- no printed name makes a line that declares something;
  `declarations_text`: **then the subdirectories are what is declared**;
* `Plain` -- no printed name has a parenthesis; `shows_text`: **then nothing
  else shows either**;
* `declarations_started`, `shows_started` -- the same of a list that is started.
-/
namespace Scaffold.Artifact.BuildList

open Text (trim isBlank)

/-! ## 1. Lines -/

/-- The lines above the declarations. -/
def body (b : BuildList) : List String :=
  preamble ++
    ["# This file is regenerated on every unit-test generation for its directory.", "",
      "set(UT_NAME " ++ b.testName ++ ")", "", "add_executable(" ++ target] ++
    b.files ++ [")", ""] ++
    (if b.includeDirs.isEmpty then []
      else ("target_include_directories(" ++ target ++ " PRIVATE") ::
        b.includeDirs.map fromRoot ++ [")", ""]) ++
    ["target_link_libraries(" ++ target ++ " PRIVATE GTest::gtest_main GTest::gmock)", "",
      "gtest_discover_tests(" ++ target ++ ")"]

theorem lines_eq (b : BuildList) : b.lines = b.body ++
    if b.subdirectories.isEmpty then [] else "" :: b.subdirectories.map declaration := rfl

/-- The lines that do not depend on what is built. -/
def fixedLines : List String :=
  preamble ++
    ["# This file is regenerated on every unit-test generation for its directory.", "",
      "add_executable(" ++ target, ")", "target_include_directories(" ++ target ++ " PRIVATE",
      "target_link_libraries(" ++ target ++ " PRIVATE GTest::gtest_main GTest::gmock)",
      "gtest_discover_tests(" ++ target ++ ")"]

theorem fixedLines_oneLine : ∀ l ∈ fixedLines, '\n' ∉ l.toList ∧ '\r' ∉ l.toList := by
  decide +kernel

theorem declared?_fixedLines : ∀ l ∈ fixedLines, declared? l.toList = none := by decide +kernel

theorem declared?_empty : declared? "".toList = none := by
  rw [String.toList_empty]
  exact declared?_nil

theorem mem_body {b : BuildList} {l : String} (h : l ∈ b.body) :
    l ∈ fixedLines ∨ l = "set(UT_NAME " ++ b.testName ++ ")" ∨
      (∃ f ∈ b.unitTests, l = "    " ++ f) ∨ ∃ p ∈ b.sources ++ b.includeDirs, l = fromRoot p := by
  have hfixed : ∀ ls : List String, (∀ l ∈ ls, l ∈ fixedLines) → l ∈ ls → l ∈ fixedLines :=
    fun _ h hl => h l hl
  simp only [body, files, List.mem_append] at h
  rcases h with ((((h | h) | (h | h)) | h) | h) | h
  · exact .inl (hfixed _ (by decide) h)
  · simp only [List.mem_cons, List.not_mem_nil, or_false] at h
    rcases h with rfl | rfl | rfl | rfl | rfl
    · exact .inl (by decide)
    · exact .inl (by decide)
    · exact .inr (.inl rfl)
    · exact .inl (by decide)
    · exact .inl (by decide)
  · obtain ⟨f, hf, rfl⟩ := List.mem_map.mp h
    exact .inr (.inr (.inl ⟨f, hf, rfl⟩))
  · obtain ⟨p, hp, rfl⟩ := List.mem_map.mp h
    exact .inr (.inr (.inr ⟨p, List.mem_append_left _ hp, rfl⟩))
  · exact .inl (hfixed _ (by decide) h)
  · split at h
    · cases h
    · rcases List.mem_append.mp h with h | h
      · rcases List.mem_cons.mp h with rfl | h
        · exact .inl (by decide)
        · obtain ⟨p, hp, rfl⟩ := List.mem_map.mp h
          exact .inr (.inr (.inr ⟨p, List.mem_append_right _ hp, rfl⟩))
      · exact .inl (hfixed _ (by decide) h)
  · exact .inl (hfixed _ (by decide) h)

/-- The names that a build list prints, declarations apart. -/
def printed (b : BuildList) : List String :=
  b.testName :: b.unitTests ++ (b.sources ++ b.includeDirs).map fun p => p.spelled "/"

/-- A character that is in none of the printed names and in no fixed line is in
no line. -/
theorem notMem_body {b : BuildList} {c : Char} (h : ∀ s ∈ b.printed, c ∉ s.toList)
    (hfixed : ∀ l ∈ fixedLines, c ∉ l.toList)
    (hframe : c ∉ "set(UT_NAME )    $\x7bCMAKE_SOURCE_DIR\x7d/".toList) :
    ∀ l ∈ b.body, c ∉ l.toList := by
  intro l hl
  have hset : c ∉ "set(UT_NAME ".toList := fun hc => hframe (List.mem_append_left _ hc)
  have hclose : c ∉ ")".toList := fun hc =>
    hframe ((by decide : ")".toList ⊆ "set(UT_NAME )    $\x7bCMAKE_SOURCE_DIR\x7d/".toList) hc)
  have hroot : c ∉ "    $\x7bCMAKE_SOURCE_DIR\x7d/".toList := fun hc =>
    hframe (List.mem_append_right "set(UT_NAME )".toList hc)
  have hindent : c ∉ "    ".toList := fun hc => hroot (List.mem_append_left _ hc)
  rcases mem_body hl with hl | rfl | ⟨f, hf, rfl⟩ | ⟨p, hp, rfl⟩
  · exact hfixed l hl
  · have : c ∉ b.testName.toList := h _ (by simp [printed])
    rw [String.toList_append, String.toList_append]
    simp only [List.mem_append, not_or]
    exact ⟨⟨hset, this⟩, hclose⟩
  · have : c ∉ f.toList := h f (by simp [printed, hf])
    rw [String.toList_append]
    simp only [List.mem_append, not_or]
    exact ⟨hindent, this⟩
  · have : c ∉ (p.spelled "/").toList := by
      refine h _ ?_
      simp only [printed, List.mem_cons, List.mem_append, List.mem_map]
      exact .inr ⟨p, by simpa using hp, rfl⟩
    unfold fromRoot
    rw [String.toList_append]
    simp only [List.mem_append, not_or]
    exact ⟨hroot, this⟩

/-! ## 2. Blocks -/

/-- The lines of a text between one and the next closing parenthesis that stands
alone. -/
def block (opening text : String) : List String :=
  ((((Text.lines text.toList).map String.ofList).dropWhile (· != opening)).tail).takeWhile
    (· != ")")

/-- What the executable of a build list is built from, line by line. -/
def enumerated (text : String) : List String := block ("add_executable(" ++ target) text

/-- The include directories of a build list, line by line. -/
def included (text : String) : List String :=
  block ("target_include_directories(" ++ target ++ " PRIVATE") text

theorem block_eq {first text : String} (before inside after : List String)
    (hb : first ∉ before) (hi : ")" ∉ inside)
    (ht : Text.lines text.toList =
      (before ++ first :: (inside ++ ")" :: after)).map String.toList) :
    block first text = inside := by
  have hlines : (Text.lines text.toList).map String.ofList =
      before ++ first :: (inside ++ ")" :: after) := by
    rw [ht, List.map_map]
    exact List.map_id'' (fun l => String.ofList_toList) _
  unfold block
  rw [hlines, List.dropWhile_append_of_pos fun l hl => by
      simpa using fun h : l = first => hb (h ▸ hl),
    List.dropWhile_cons_of_neg (by simp), List.tail_cons,
    List.takeWhile_append_of_pos fun l hl => by
      simpa using fun h : l = ")" => hi (h ▸ hl),
    List.takeWhile_cons_of_neg (by simp), List.append_nil]

/-- All that is printed stays in its line. -/
def OneLine (b : BuildList) : Prop :=
  ∀ s ∈ b.printed ++ b.subdirectories, '\n' ∉ s.toList ∧ '\r' ∉ s.toList

theorem lines_text {b : BuildList} (h : b.OneLine) :
    Text.lines b.text.toList = b.lines.map String.toList := by
  have hprinted : ∀ s ∈ b.printed, '\n' ∉ s.toList ∧ '\r' ∉ s.toList :=
    fun s hs => h s (List.mem_append_left _ hs)
  refine Text.lines_unlines fun l hl => ?_
  suffices h : '\n' ∉ l.toList ∧ '\r' ∉ l.toList from ⟨h.1, fun e => h.2 (List.mem_of_getLast? e)⟩
  rw [lines_eq] at hl
  rcases List.mem_append.mp hl with hl | hl
  · exact ⟨notMem_body (fun s hs => (hprinted s hs).1) (fun l hl => (fixedLines_oneLine l hl).1)
        (by decide) l hl,
      notMem_body (fun s hs => (hprinted s hs).2) (fun l hl => (fixedLines_oneLine l hl).2)
        (by decide) l hl⟩
  · split at hl
    · cases hl
    · rcases List.mem_cons.mp hl with rfl | hl
      · decide
      · obtain ⟨c, hc, rfl⟩ := List.mem_map.mp hl
        obtain ⟨hn, hr⟩ := h c (List.mem_append_right _ hc)
        refine ⟨notMem_declaration hn, ?_⟩
        rw [toList_declaration]
        simp only [List.mem_append, List.mem_singleton, not_or]
        exact ⟨⟨by decide, hr⟩, by decide⟩

/-- Texts that begin with different characters are different. -/
theorem ne_of_head? {l l' : String} {c z : Char} (h : l.toList.head? = some c)
    (h' : l'.toList.head? = some z) (hc : c ≠ z) : l ≠ l' := by
  rintro rfl
  rw [h] at h'
  exact hc (Option.some.inj h')

theorem head?_fromRoot (p : Path) : (fromRoot p).toList.head? = some ' ' := by
  unfold fromRoot
  rw [String.toList_append]
  rfl

theorem head?_files {b : BuildList} {l : String} (hl : l ∈ b.files) :
    l.toList.head? = some ' ' := by
  rcases List.mem_append.mp hl with hl | hl
  · obtain ⟨f, _, rfl⟩ := List.mem_map.mp hl
    rw [String.toList_append]
    rfl
  · obtain ⟨p, _, rfl⟩ := List.mem_map.mp hl
    exact head?_fromRoot p

/-- The lines in front of the executable. -/
def beginning (b : BuildList) : List String :=
  preamble ++
    ["# This file is regenerated on every unit-test generation for its directory.", "",
      "set(UT_NAME " ++ b.testName ++ ")", ""]

theorem head?_beginning {b : BuildList} {l : String} (hl : l ∈ b.beginning) :
    l.toList.head? = none ∨ l.toList.head? = some '#' ∨ l.toList.head? = some 's' := by
  have hpreamble : ∀ l ∈ preamble, l.toList.head? = some '#' := by decide +kernel
  rcases List.mem_append.mp hl with hl | hl
  · exact .inr (.inl (hpreamble l hl))
  · simp only [List.mem_cons, List.not_mem_nil, or_false] at hl
    rcases hl with rfl | rfl | rfl | rfl
    · exact .inr (.inl (by decide +kernel))
    · exact .inl (by decide)
    · refine .inr (.inr ?_)
      rw [String.toList_append, String.toList_append]
      rfl
    · exact .inl (by decide)

theorem notMem_beginning {b : BuildList} {first : String} {c : Char}
    (h : first.toList.head? = some c) (hc : c ≠ '#' ∧ c ≠ 's') : first ∉ b.beginning := by
  intro hmem
  rcases head?_beginning hmem with hhead | hhead | hhead
  · rw [h] at hhead
    cases hhead
  · exact hc.1 (Option.some.inj (h.symm.trans hhead))
  · exact hc.2 (Option.some.inj (h.symm.trans hhead))

/-- A text that stays in its line. -/
def InLine (s : String) : Prop := '\n' ∉ s.toList ∧ '\r' ∉ s.toList

instance (s : String) : Decidable (InLine s) :=
  inferInstanceAs (Decidable ('\n' ∉ s.toList ∧ '\r' ∉ s.toList))

theorem InLine.append {s t : String} (hs : InLine s) (ht : InLine t) : InLine (s ++ t) := by
  unfold InLine
  rw [String.toList_append]
  simp only [List.mem_append, not_or]
  exact ⟨⟨hs.1, ht.1⟩, hs.2, ht.2⟩

theorem inLine_beginning {b : BuildList} (h : InLine b.testName) : ∀ l ∈ b.beginning, InLine l := by
  intro l hl
  rcases List.mem_append.mp hl with hl | hl
  · exact fixedLines_oneLine l (List.mem_append_left _ hl)
  · simp only [List.mem_cons, List.not_mem_nil, or_false] at hl
    rcases hl with rfl | rfl | rfl | rfl
    · exact fixedLines_oneLine _ (by decide)
    · exact fixedLines_oneLine _ (by decide)
    · exact (InLine.append (by decide) h).append (by decide)
    · exact fixedLines_oneLine _ (by decide)

/-- **The block of the executable is read back**, whatever is written below it. -/
theorem enumerated_written {b : BuildList} (hname : InLine b.testName)
    (hfiles : ∀ l ∈ b.files, InLine l) : enumerated b.text = b.files := by
  have hclose : ")" ∉ b.files := fun hmem =>
    ne_of_head? (head?_files hmem) (z := ')') rfl (by decide) rfl
  obtain ⟨after, hafter⟩ : ∃ after, b.lines =
      (b.beginning ++ ("add_executable(" ++ target) :: (b.files ++ [")"])) ++ after := by
    unfold lines beginning
    simp only [List.append_assoc, List.cons_append]
    exact ⟨_, rfl⟩
  have habove : ∀ l ∈ b.beginning ++ ("add_executable(" ++ target) :: (b.files ++ [")"]),
      '\n' ∉ l.toList ∧ l.toList.getLast? ≠ some '\r' := by
    intro l hl
    suffices h : InLine l from ⟨h.1, fun e => h.2 (List.mem_of_getLast? e)⟩
    rcases List.mem_append.mp hl with hl | hl
    · exact inLine_beginning hname l hl
    rcases List.mem_cons.mp hl with rfl | hl
    · exact fixedLines_oneLine _ (by decide)
    rcases List.mem_append.mp hl with hl | hl
    · exact hfiles l hl
    · rw [List.mem_singleton.mp hl]
      exact fixedLines_oneLine _ (by decide)
  refine block_eq b.beginning b.files
    ((Text.lines (Text.unlines after).toList).map String.ofList)
    (notMem_beginning (c := 'a') rfl (by decide)) hclose ?_
  unfold text
  rw [hafter, Text.lines_unlines_append habove]
  simp

/-- The block of a list whose printed texts all stay in their lines. -/
theorem enumerated_text {b : BuildList} (h : b.OneLine) : enumerated b.text = b.files := by
  have hprinted : ∀ s ∈ b.printed, InLine s := fun s hs => h s (List.mem_append_left _ hs)
  refine enumerated_written (hprinted _ List.mem_cons_self) fun l hl => ?_
  rcases List.mem_append.mp hl with hl | hl
  · obtain ⟨f, hf, rfl⟩ := List.mem_map.mp hl
    exact InLine.append (by decide) (hprinted f (by simp [printed, hf]))
  · obtain ⟨p, hp, rfl⟩ := List.mem_map.mp hl
    refine InLine.append (by decide) (hprinted _ ?_)
    exact List.mem_cons_of_mem _ (List.mem_append_right _
      (List.mem_map_of_mem (List.mem_append_left _ hp)))

/-- **The block of the include directories is read back.** -/
theorem included_text {b : BuildList} (h : b.OneLine) (hdirs : b.includeDirs ≠ []) :
    included b.text = b.includeDirs.map fromRoot := by
  have hclose : ")" ∉ b.includeDirs.map fromRoot := by
    intro hmem
    obtain ⟨p, _, hp⟩ := List.mem_map.mp hmem
    exact ne_of_head? (head?_fromRoot p) (z := ')') rfl (by decide) hp
  have hbefore : "target_include_directories(" ++ target ++ " PRIVATE" ∉
      b.beginning ++ ["add_executable(" ++ target] ++ b.files ++ [")", ""] := by
    intro hmem
    rcases List.mem_append.mp hmem with hmem | hmem
    · rcases List.mem_append.mp hmem with hmem | hmem
      · rcases List.mem_append.mp hmem with hmem | hmem
        · exact notMem_beginning (c := 't') rfl (by decide) hmem
        · revert hmem
          decide
      · exact ne_of_head? (head?_files hmem) (z := 't') rfl (by decide) rfl
    · revert hmem
      decide
  obtain ⟨after, hafter⟩ : ∃ after, b.lines =
      (b.beginning ++ ["add_executable(" ++ target] ++ b.files ++ [")", ""]) ++
        ("target_include_directories(" ++ target ++ " PRIVATE") ::
          (b.includeDirs.map fromRoot ++ ")" :: after) := by
    unfold lines beginning
    rw [if_neg (by simpa using hdirs)]
    simp only [List.append_assoc]
    exact ⟨_, rfl⟩
  exact block_eq _ (b.includeDirs.map fromRoot) after hbefore hclose
    (by rw [lines_text h, hafter])

/-! ## 3. Declarations by lines -/

/-- A line that does not begin like a declaration is none. -/
theorem declared?_of_head {line cs : List Char} {c : Char}
    (h : line.dropWhile isBlank = c :: cs) (hc : c ≠ 'a') : declared? line = none := by
  have hafter : after? opening (trim line) = none := by
    cases hrest : after? opening (trim line) with
    | none => rfl
    | some rest =>
      have hpre : trim line <+: c :: cs := h ▸ Text.dropEndWhile_isPrefix isBlank _
      rw [after?_eq_some hrest] at hpre
      obtain ⟨tail, htail⟩ := hpre
      exact absurd (List.cons.inj htail).1.symm hc
  unfold declared?
  change ((after? opening (trim line)).bind fun rest => _) = none
  rw [hafter]
  rfl

/-- An indented line declares what it declares without the indent. -/
theorem declared?_indented (f : String) :
    declared? ("    " ++ f).toList = declared? f.toList := by
  have hblank : isBlank ' ' = true := by decide
  refine declared?_congr ?_
  rw [String.toList_append]
  change trim (' ' :: ' ' :: ' ' :: ' ' :: f.toList) = _
  rw [Text.trim_cons_blank hblank, Text.trim_cons_blank hblank, Text.trim_cons_blank hblank,
    Text.trim_cons_blank hblank]

/-- No printed name makes a line that declares something, and each subdirectory
fits into a declaration. -/
structure Quiet (b : BuildList) : Prop where
  printed : ∀ s ∈ b.printed, '\n' ∉ s.toList
  unitTests : ∀ f ∈ b.unitTests, declared? f.toList = none
  subdirectories : ∀ c ∈ b.subdirectories, Trimmed c ∧ '\n' ∉ c.toList

theorem declared?_body {b : BuildList} (h : b.Quiet) {l : String} (hl : l ∈ b.body) :
    declared? l.toList = none := by
  rcases mem_body hl with hl | rfl | ⟨f, hf, rfl⟩ | ⟨p, _, rfl⟩
  · exact declared?_fixedLines l hl
  · rw [String.toList_append, String.toList_append]
    exact declared?_of_head (c := 's') rfl (by decide)
  · rw [declared?_indented]
    exact h.unitTests f hf
  · unfold fromRoot
    rw [String.toList_append]
    exact declared?_of_head (c := '$') rfl (by decide)

/-- Where no name holds a line feed, each line is one. -/
theorem notMem_lines {b : BuildList} (hprinted : ∀ s ∈ b.printed, '\n' ∉ s.toList)
    (hsub : ∀ c ∈ b.subdirectories, '\n' ∉ c.toList) : ∀ l ∈ b.lines, '\n' ∉ l.toList := by
  intro l hl
  rw [lines_eq] at hl
  rcases List.mem_append.mp hl with hl | hl
  · exact notMem_body hprinted (fun l hl => (fixedLines_oneLine l hl).1) (by decide) l hl
  · split at hl
    · cases hl
    · rcases List.mem_cons.mp hl with rfl | hl
      · decide
      · obtain ⟨c, hc, rfl⟩ := List.mem_map.mp hl
        exact notMem_declaration (hsub c hc)

/-- **The subdirectories of a quiet list are what its lines declare.** -/
theorem declarations_text {b : BuildList} (h : b.Quiet) :
    declarations b.text.toList = b.subdirectories := by
  have hdeclared : (b.subdirectories.map declaration).filterMap (fun l => declared? l.toList) =
      b.subdirectories := by
    rw [List.filterMap_map]
    refine (List.filterMap_congr fun c hc => ?_).trans List.filterMap_some
    exact declared?_declaration (h.subdirectories c hc).1
  unfold text
  rw [declarations_unlines (notMem_lines h.printed fun c hc => (h.subdirectories c hc).2), lines_eq, List.filterMap_append,
    List.filterMap_eq_nil_iff.mpr fun l hl => declared?_body h hl, List.nil_append]
  split
  · rename_i hnil
    rw [List.isEmpty_iff.mp hnil]
    rfl
  · rw [List.filterMap_cons_none (a := "") declared?_empty, hdeclared]

/-! ## 4. Declarations by text -/

/-- The declarations of the subdirectories show. -/
theorem shows_subdirectory {b : BuildList} {c : String} (hc : c ∈ b.subdirectories) :
    Shows b.text.toList c := by
  refine shows_of_mem_lines ?_
  rw [lines_eq, if_neg (by simpa using List.ne_nil_of_mem hc)]
  exact List.mem_append_right _ (List.mem_cons_of_mem _ (List.mem_map_of_mem hc))

/-- Nothing is declared where no parenthesis opens. -/
theorem not_shows_of_notMem {line : List Char} {c : String} (h : '(' ∉ line) : ¬Shows line c := by
  intro hs
  refine h (hs.subset ?_)
  rw [toList_declaration]
  exact List.mem_append_left _ (List.mem_append_left _ (by decide))

/-- One parenthesis opens, and not to declare a name. -/
def Mute (line : List Char) : Prop :=
  '(' ∉ (line.dropWhile (· != '(')).tail ∧
    (¬"add_subdirectory".toList <:+ line.takeWhile (· != '(') ∨
      (line.dropWhile (· != '(')).tail.head? = some ')')

instance (line : List Char) : Decidable (Mute line) := inferInstanceAs (Decidable (_ ∧ (¬_ ∨ _)))

theorem Mute.not_shows {line : List Char} (h : Mute line) {c : String} (hne : c.toList ≠ [])
    (hc : Unbracketed c) : ¬Shows line c := by
  rintro ⟨u, v, heq⟩
  have hopen : opening = "add_subdirectory".toList ++ ['('] := by decide
  have heq : line = (u ++ "add_subdirectory".toList) ++ '(' :: (c.toList ++ ')' :: v) := by
    rw [← heq, toList_declaration, hopen]
    simp
  have hmem : '(' ∈ line := by
    rw [heq]
    exact List.mem_append_right _ List.mem_cons_self
  obtain ⟨a, w, ha, hline⟩ : ∃ a w, '(' ∉ a ∧ line = a ++ '(' :: w := by
    obtain ⟨a, w, hline, ha⟩ := List.eq_append_cons_of_mem hmem
    exact ⟨a, w, ha, hline⟩
  have htake : line.takeWhile (· != '(') = a := by
    rw [hline, List.takeWhile_append_of_pos fun x hx => by simpa using fun e : x = '(' => ha (e ▸ hx),
      List.takeWhile_cons_of_neg (by simp), List.append_nil]
  have hdrop : (line.dropWhile (· != '(')).tail = w := by
    rw [hline, List.dropWhile_append_of_pos fun x hx => by simpa using fun e : x = '(' => ha (e ▸ hx),
      List.dropWhile_cons_of_neg (by simp), List.tail_cons]
  unfold Mute at h
  rw [htake, hdrop] at h
  -- no parenthesis opens behind the first one, so the occurrence begins there
  rw [heq, eq_comm] at hline
  rw [List.append_cons_inj_of_notMem ha h.1] at hline
  obtain ⟨rfl, _, hw⟩ := hline
  rcases h.2 with h | h
  · exact h ⟨u, rfl⟩
  · rw [hw, List.head?_append_of_ne_nil _ hne] at h
    exact hc.2 (List.mem_of_head? h)

/-- What is printed stays in its line and has no parentheses, and each
subdirectory fits into a declaration. -/
structure Plain (b : BuildList) : Prop where
  printed : ∀ s ∈ b.printed, Unbracketed s ∧ '\n' ∉ s.toList
  subdirectories : ∀ c ∈ b.subdirectories, Declarable c

theorem Plain.quiet {b : BuildList} (h : b.Plain) : b.Quiet where
  printed s hs := (h.printed s hs).2
  unitTests f hf := by
    have hf : Unbracketed f := (h.printed f (by simp [BuildList.printed, hf])).1
    cases hd : declared? f.toList with
    | none => rfl
    | some c =>
      unfold declared? at hd
      change ((after? opening (trim f.toList)).bind fun rest => _) = _ at hd
      obtain ⟨rest, hrest, _⟩ := Option.bind_eq_some_iff.mp hd
      have : '(' ∈ trim f.toList := by
        rw [after?_eq_some hrest]
        exact List.mem_append_left _ (by decide)
      exact absurd (Text.mem_of_mem_trim this) hf.1
  subdirectories c hc := ⟨(h.subdirectories c hc).1, (h.subdirectories c hc).2.2⟩

theorem mute_fixedLines : ∀ l ∈ fixedLines, '(' ∉ l.toList ∨ Mute l.toList := by decide +kernel

/-- No fixed line shows a declaration. -/
theorem not_shows_fixedLines {l : String} (hl : l ∈ fixedLines) {c : String} (hne : c.toList ≠ [])
    (hc : Unbracketed c) : ¬Shows l.toList c := by
  rcases mute_fixedLines l hl with hl | hl
  · exact not_shows_of_notMem hl
  · exact hl.not_shows hne hc

theorem Plain.not_shows_body {b : BuildList} (h : b.Plain) {c : String} (hne : c.toList ≠ [])
    (hc : Unbracketed c) {l : String} (hl : l ∈ b.body) : ¬Shows l.toList c := by
  rcases mem_body hl with hl | rfl | ⟨f, hf, rfl⟩ | ⟨p, hp, rfl⟩
  · exact not_shows_fixedLines hl hne hc
  · have hname : '(' ∉ b.testName.toList := (h.printed _ (by simp [BuildList.printed])).1.1
    refine Mute.not_shows ⟨?_, .inl ?_⟩ hne hc
    · rw [String.toList_append, String.toList_append]
      change '(' ∉ "UT_NAME ".toList ++ b.testName.toList ++ ")".toList
      simp only [List.mem_append, not_or]
      exact ⟨⟨by decide, hname⟩, by decide⟩
    · rw [String.toList_append, String.toList_append]
      change ¬"add_subdirectory".toList <:+ "set".toList
      decide
  · have hf : '(' ∉ f.toList := (h.printed f (by simp [BuildList.printed, hf])).1.1
    refine not_shows_of_notMem ?_
    rw [String.toList_append, List.mem_append, not_or]
    exact ⟨by decide, hf⟩
  · have hp : '(' ∉ (p.spelled "/").toList := by
      refine (h.printed _ ?_).1.1
      simp only [BuildList.printed, List.mem_cons, List.mem_append, List.mem_map]
      exact .inr ⟨p, by simpa using hp, rfl⟩
    unfold fromRoot
    refine not_shows_of_notMem ?_
    rw [String.toList_append, List.mem_append, not_or]
    exact ⟨by decide, hp⟩

/-- **In a plain list only the declarations of its subdirectories show.** -/
theorem shows_text {b : BuildList} (h : b.Plain) {c : String} (hc : Declarable c) :
    Shows b.text.toList c ↔ c ∈ b.subdirectories := by
  constructor
  · intro hs
    obtain ⟨l, hl, hs⟩ := infix_unlines (notMem_declaration hc.2.2) (declaration_ne_nil c) hs
    rw [lines_eq] at hl
    rcases List.mem_append.mp hl with hl | hl
    · exact absurd hs (h.not_shows_body hc.1.1 hc.2.1 hl)
    · split at hl
      · cases hl
      · rcases List.mem_cons.mp hl with rfl | hl
        · exact absurd hs (not_shows_of_notMem (by decide))
        · obtain ⟨c', hc', rfl⟩ := List.mem_map.mp hl
          exact (shows_declaration (h.subdirectories c' hc').2.1).mp hs ▸ hc'
  · exact shows_subdirectory

/-! ## 5. Lists that are started -/

theorem declarations_started {name : String} (ht : Trimmed name) (hn : '\n' ∉ name.toList) :
    declarations (started name).toList = [name] := by
  have hlines : ∀ l ∈ preamble ++ ["", declaration name], '\n' ∉ l.toList := by
    intro l hl
    rcases List.mem_append.mp hl with hl | hl
    · exact (fixedLines_oneLine l (List.mem_append_left _ hl)).1
    · simp only [List.mem_cons, List.not_mem_nil, or_false] at hl
      rcases hl with rfl | rfl
      · decide
      · exact notMem_declaration hn
  have hpreamble : preamble.filterMap (fun l => declared? l.toList) = [] :=
    List.filterMap_eq_nil_iff.mpr fun l hl => declared?_fixedLines l (List.mem_append_left _ hl)
  unfold started
  rw [declarations_unlines hlines, List.filterMap_append, hpreamble, List.nil_append]
  simp only [List.filterMap_cons, declared?_empty, declared?_declaration ht, List.filterMap_nil]

theorem shows_started {name other : String} (h : Declarable name) (ho : Unbracketed other) :
    Shows (started other).toList name ↔ name = other := by
  constructor
  · intro hs
    obtain ⟨l, hl, hs⟩ := infix_unlines (notMem_declaration h.2.2) (declaration_ne_nil name) hs
    rcases List.mem_append.mp hl with hl | hl
    · exact absurd hs (not_shows_fixedLines (List.mem_append_left _ hl) h.1.1 h.2.1)
    · simp only [List.mem_cons, List.not_mem_nil, or_false] at hl
      rcases hl with rfl | rfl
      · exact absurd hs (not_shows_of_notMem (by decide))
      · exact (shows_declaration ho).mp hs
  · rintro rfl
    exact shows_of_mem_lines (List.mem_append_right _ (by simp))

end Scaffold.Artifact.BuildList
