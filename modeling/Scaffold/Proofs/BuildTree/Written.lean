import Scaffold.Proofs.BuildTree.Exactness
import Scaffold.Proofs.BuildTree.Sites

/-!
# Lists line by line

What a generated list holds, up to empty lines: lines that declare nothing, and
one declaration for each child, in the order in which they came.

* `filled` -- the lines of a text that are not empty; `remaining` -- those of them
  that declare nothing;
* `Written` -- a text with given lines and children;
* `Written.declares`, `written_text` -- **what a declaration and a new list make of
  it**;
* `addAll` -- children in the order in which they came first.
-/
namespace Scaffold

namespace Artifact.BuildList

/-! ## 1. Lines that are not empty -/

/-- The lines of a text that are not empty. -/
def filled (text : List Char) : List (List Char) :=
  (text.splitOn '\n').filter fun l => !l.isEmpty

/-- The lines of a text that are not empty and declare nothing. -/
def remaining (text : List Char) : List (List Char) :=
  (filled text).filter fun l => (declared? l).isNone

@[simp] theorem filled_nil : filled [] = [] := by decide

/-- A line feed cuts the lines in two. -/
theorem filled_append (a b : List Char) : filled (a ++ '\n' :: b) = filled a ++ filled b := by
  unfold filled
  rw [List.splitOn_append_cons_self, List.filter_append]

@[simp] theorem filled_append_lineFeed (a : List Char) : filled (a ++ ['\n']) = filled a := by
  rw [filled_append, filled_nil, List.append_nil]

theorem filled_of_notMem {line : List Char} (h : '\n' ∉ line) (hne : line ≠ []) :
    filled line = [line] := by
  unfold filled
  rw [List.splitOn_eq_singleton h, List.filter_cons_of_pos (by simpa using hne), List.filter_nil]

theorem filled_unlines {ls : List String} (h : ∀ l ∈ ls, '\n' ∉ l.toList) :
    filled (Text.unlines ls).toList = (ls.map String.toList).filter fun l => !l.isEmpty := by
  rw [Text.toList_unlines]
  induction ls with
  | nil => exact filled_nil
  | cons l ls ih =>
    rw [List.flatMap_cons, List.append_assoc, List.singleton_append, filled_append,
      ih fun l' hl' => h l' (List.mem_cons_of_mem l hl'), List.map_cons]
    by_cases hl : l.toList = []
    · rw [hl, filled_nil, List.filter_cons_of_neg (by simp), List.nil_append]
    · rw [filled_of_notMem (h l List.mem_cons_self) hl,
        List.filter_cons_of_pos (by simpa using hl), List.singleton_append]

/-- Declarations stand in lines that are not empty. -/
theorem declarations_eq_filled (text : List Char) :
    declarations text = (filled text).filterMap declared? := by
  induction hn : text.length using Nat.strongRecOn generalizing text with
  | _ n ih =>
    rcases Text.eq_or_split_lineFeed text with ht | ⟨line, rest, hline, rfl⟩
    · rw [declarations_of_notMem ht]
      by_cases hne : text = []
      · subst hne
        rw [declared?_nil, filled_nil]
        rfl
      · rw [filled_of_notMem ht hne]
        cases hd : declared? text <;> simp [hd]
    · have hlt : rest.length < n := by
        simp at hn
        omega
      rw [declarations_append, filled_append, List.filterMap_append, ih _ hlt rest rfl]
      congr 1
      rw [declarations_of_notMem hline]
      by_cases hne : line = []
      · subst hne
        rw [declared?_nil, filled_nil]
        rfl
      · rw [filled_of_notMem hline hne]
        cases hd : declared? line <;> simp [hd]

/-- A further declaration is one more line. -/
theorem filled_extended {name : String} (hn : '\n' ∉ name.toList) (text : String) :
    filled (extended text name).toList = filled text.toList ++ [(declaration name).toList] := by
  have hline : filled ((declaration name).toList ++ ['\n']) = [(declaration name).toList] := by
    rw [filled_append_lineFeed, filled_of_notMem (notMem_declaration hn) (declaration_ne_nil name)]
  rcases toList_extended text name with ⟨rfl, h⟩ | ⟨a, ha, h⟩
  · rw [h, hline, String.toList_empty, filled_nil, List.nil_append]
  · rw [h, filled_append, hline]
    rcases ha with ha | ha <;> simp [ha]

/-- The lines that do not depend on the subdirectories, without empty ones. -/
def bodyLines (b : BuildList) : List (List Char) :=
  (b.body.map String.toList).filter fun l => !l.isEmpty

/-- One of them is the line of an include directory. -/
theorem mem_bodyLines_of_includeDirs {b : BuildList} {p : Path} (h : p ∈ b.includeDirs) :
    (fromRoot p).toList ∈ b.bodyLines := by
  have hbody : fromRoot p ∈ b.body := by
    unfold body
    rw [if_neg (by simpa using List.ne_nil_of_mem h)]
    simp only [List.mem_append, List.mem_cons, List.mem_map]
    exact .inl (.inr (.inl (.inr ⟨p, h, rfl⟩)))
  refine List.mem_filter.mpr ⟨List.mem_map_of_mem hbody, ?_⟩
  have hhead := head?_fromRoot p
  cases hline : (fromRoot p).toList with
  | nil => rw [hline] at hhead; cases hhead
  | cons z l => rfl

theorem filled_text {b : BuildList} (hprinted : ∀ s ∈ b.printed, '\n' ∉ s.toList)
    (hsub : ∀ c ∈ b.subdirectories, '\n' ∉ c.toList) : filled b.text.toList =
      b.bodyLines ++ b.subdirectories.map fun c => (declaration c).toList := by
  have hdeclarations : ∀ names : List String,
      ((names.map declaration).map String.toList).filter (fun l => !l.isEmpty) =
        names.map fun c => (declaration c).toList := by
    intro names
    rw [List.map_map, List.filter_eq_self.mpr]
    · rfl
    · intro l hl
      obtain ⟨c, _, rfl⟩ := List.mem_map.mp hl
      simpa using declaration_ne_nil c
  unfold text
  rw [filled_unlines (notMem_lines hprinted hsub), lines_eq, List.map_append,
    List.filter_append]
  unfold bodyLines
  congr 1
  split
  · rename_i hnone
    rw [List.isEmpty_iff.mp hnone]
    rfl
  · rw [List.map_cons, List.filter_cons_of_neg (by simp), hdeclarations]

theorem bodyLines_quiet {b : BuildList} (h : b.Quiet) : ∀ l ∈ b.bodyLines, declared? l = none := by
  intro l hl
  obtain ⟨l', hl', rfl⟩ := List.mem_map.mp (List.mem_filter.mp hl).1
  exact declared?_body h hl'

/-- The lines of a list that only leads to others, but for its declarations. -/
def startLines : List (List Char) := preamble.map String.toList

theorem startLines_quiet : ∀ l ∈ startLines, declared? l = none := by decide +kernel

theorem filled_started {name : String} (h : '\n' ∉ name.toList) :
    filled (started name).toList = startLines ++ [(declaration name).toList] := by
  have hlines : ∀ l ∈ preamble ++ ["", declaration name], '\n' ∉ l.toList := by
    intro l hl
    rcases List.mem_append.mp hl with hl | hl
    · exact (fixedLines_oneLine l (by simp [fixedLines, hl])).1
    · simp only [List.mem_cons, List.not_mem_nil, or_false] at hl
      rcases hl with rfl | rfl
      · decide
      · exact notMem_declaration h
  have hstart : startLines.filter (fun l => !l.isEmpty) = startLines := by decide +kernel
  unfold started
  rw [filled_unlines hlines, List.map_append, List.filter_append]
  change startLines.filter _ ++ _ = _
  rw [hstart, List.map_cons, List.filter_cons_of_neg (by simp), List.map_singleton,
    List.filter_cons_of_pos (by simpa using declaration_ne_nil name), List.filter_nil]

end Artifact.BuildList

namespace BuildTree

open Artifact (BuildList)
open Artifact.BuildList (declarations declaration declared? filled remaining Declarable)

/-! ## 2. Children in order -/

/-- Children with one more of them, if it is new. -/
def addOne (names : List String) (c : String) : List String :=
  if c ∈ names then names else names ++ [c]

/-- Children with others, in the order in which they come first. -/
def addAll (names cs : List String) : List String := cs.foldl addOne names

variable {names cs : List String} {c x : String}

theorem mem_addOne : x ∈ addOne names c ↔ x ∈ names ∨ x = c := by
  unfold addOne
  split
  · rename_i hc
    exact ⟨.inl, fun h => h.elim id fun h => h ▸ hc⟩
  · rw [List.mem_append, List.mem_singleton]

theorem mem_addAll : x ∈ addAll names cs ↔ x ∈ names ∨ x ∈ cs := by
  induction cs generalizing names with
  | nil => simp [addAll]
  | cons c cs ih =>
    change x ∈ addAll (addOne names c) cs ↔ _
    rw [ih, mem_addOne, List.mem_cons, or_assoc]

/-- Children that are there already change nothing. -/
theorem addAll_of_subset (h : ∀ c ∈ cs, c ∈ names) : addAll names cs = names := by
  induction cs with
  | nil => rfl
  | cons c cs ih =>
    change addAll (addOne names c) cs = names
    rw [show addOne names c = names from if_pos (h c List.mem_cons_self)]
    exact ih fun c' hc' => h c' (List.mem_cons_of_mem c hc')

theorem addAll_append (names cs cs' : List String) :
    addAll names (cs ++ cs') = addAll (addAll names cs) cs' := List.foldl_append

/-- **Children that come again change nothing.** -/
theorem addAll_again (names : List String) {before cs : List String} (h : before <+: cs) :
    addAll (addAll names before) cs = addAll names cs := by
  obtain ⟨rest, rfl⟩ := h
  rw [addAll_append, addAll_append, addAll_of_subset fun c hc => mem_addAll.mpr (.inr hc)]

/-! ## 3. Written lists -/

/-- Up to empty lines, the text consists of the given lines, which declare
nothing, and of a declaration for each of the children. -/
structure Written (base : List (List Char)) (names : List String) (t : String) : Prop where
  filled : filled t.toList = base ++ names.map fun c => (declaration c).toList
  quiet : ∀ l ∈ base, declared? l = none
  tidy : Tidy t
  declared : declarations t.toList = names

variable {base : List (List Char)} {t new : String} {old : Option String}

/-- The lines that declare nothing are the given ones. -/
theorem Written.remaining (h : Written base names t) : remaining t.toList = base := by
  unfold Artifact.BuildList.remaining
  rw [h.filled, List.filter_append, List.filter_eq_self.mpr, List.filter_eq_nil_iff.mpr,
    List.append_nil]
  · intro l hl
    obtain ⟨c, hc, rfl⟩ := List.mem_map.mp hl
    rw [Artifact.BuildList.declared?_declaration (h.tidy.declarable c (h.declared ▸ hc)).1]
    simp
  · intro l hl
    rw [h.quiet l hl]
    rfl

/-- A declaration leaves a text as it is, or extends it. -/
theorem Declares.cases_text (h : Declares c old new)
    (hold : old.map Content.text = some (.text t)) :
    (BuildList.Shows t.toList c ∧ new = t) ∨
      (¬BuildList.Shows t.toList c ∧ new = BuildList.extended t c) := by
  cases h with
  | shown _ hshows =>
    cases hold
    exact .inl ⟨hshows, rfl⟩
  | appended _ hnot =>
    cases hold
    exact .inr ⟨hnot, rfl⟩
  | started => cases hold

/-- What a list becomes by a declaration is settled by what it was. -/
theorem Declares.unique {c new new' : String} {old : Option String} (h : Declares c old new)
    (h' : Declares c old new') : new' = new := by
  cases h with
  | shown t hshows =>
    rcases h'.cases_text rfl with ⟨_, rfl⟩ | ⟨hnot, _⟩
    · rfl
    · exact absurd hshows hnot
  | appended t hnot =>
    rcases h'.cases_text rfl with ⟨hshows, _⟩ | ⟨_, rfl⟩
    · exact absurd hshows hnot
    · rfl
  | started => cases h' with | started => rfl

/-- A list that is started has a single child. -/
theorem written_started (hc : Declarable c) :
    Written BuildList.startLines [c] (BuildList.started c) :=
  ⟨BuildList.filled_started hc.2.2, BuildList.startLines_quiet,
    (Declares.started.tidy hc fun t ht => absurd ht (by simp)).1,
    BuildList.declarations_started hc.1 hc.2.2⟩

/-- **What a declaration makes of a written list.** -/
theorem Written.declares (ht : Written base names t) (h : Declares c (some t) new)
    (hc : Declarable c) : Written base (addOne names c) new := by
  have htidy : Tidy new := (h.tidy hc fun t' ht' => by cases ht'; exact ht.tidy).1
  rcases h.cases_text rfl with ⟨hshows, rfl⟩ | ⟨hnot, rfl⟩
  · have hmem : c ∈ names := ht.declared ▸ (ht.tidy.shows c hc).mp hshows
    rw [show addOne names c = names from if_pos hmem]
    exact ht
  · have hnew : c ∉ names := fun hmem => hnot ((ht.tidy.shows c hc).mpr (ht.declared ▸ hmem))
    rw [show addOne names c = names ++ [c] from if_neg hnew]
    refine ⟨?_, ht.quiet, htidy, ?_⟩
    · rw [BuildList.filled_extended hc.2.2, ht.filled, List.map_append, List.map_singleton,
        List.append_assoc]
    · rw [BuildList.declarations_extended hc.1 hc.2.2, ht.declared]

/-- A new list is written with its own lines and its subdirectories. -/
theorem written_text {b : BuildList} (h : b.Plain) (hnodup : b.subdirectories.Nodup) :
    Written b.bodyLines b.subdirectories b.text :=
  ⟨BuildList.filled_text h.quiet.printed fun c hc => (h.quiet.subdirectories c hc).2,
    BuildList.bodyLines_quiet h.quiet, tidy_text h hnodup,
    BuildList.declarations_text h.quiet⟩

/-- Two lists with the same target, files and directories have the same lines. -/
theorem bodyLines_congr {b b' : BuildList} (hname : b'.testName = b.testName)
    (htests : b'.unitTests = b.unitTests) (hsources : b'.sources = b.sources)
    (hdirs : b'.includeDirs = b.includeDirs) : b'.bodyLines = b.bodyLines := by
  unfold BuildList.bodyLines BuildList.body BuildList.files
  rw [hname, htests, hsources, hdirs]

end BuildTree

end Scaffold
