import Mathlib.Data.List.Nodup
import Scaffold.Artifact.UnitTest
import Scaffold.Proofs.Artifact.Reading

/-!
# Names of tests

The tests that a unit test prints, as pairs of a suite and a name.

* `testsIn` -- the tests that lines begin; `testsIn_lines`: one for every method, and one for
  every class without methods;
* `numbered` -- the test name of each method with the same word: the word itself, then the
  word with 2, 3 and so on;
* `mem_testNamesFrom`, `nodup_testNamesFrom` -- which names a class gives, and when it gives
  none twice;
* `tests_distinct_iff` -- **no test is printed twice, unless a word with a number is another
  word of the same suite**; `overloads_clash`: two methods `add` and one `add2` make the
  same test.
-/
namespace Scaffold.Artifact.UnitTest

open Text (isIdentifier)

/-! ## 1. Reading -/

/-- The suite and the name of the test that a line begins. -/
def test? (line : String) : Option (String × String) := do
  let inner ← between? "TEST(" ")" line
  let name ← between? ", " "" (String.ofList (inner.toList.dropWhile (· != ',')))
  return (String.ofList (inner.toList.takeWhile (· != ',')), name)

/-- The tests that lines begin, in order. -/
def testsIn (ls : List String) : List (String × String) := ls.filterMap test?

theorem test?_line {suite : String} (hsuite : ',' ∉ suite.toList) (name : String) :
    test? ("TEST(" ++ suite ++ ", " ++ name ++ ")") = some (suite, name) := by
  have hline : "TEST(" ++ suite ++ ", " ++ name ++ ")" =
      "TEST(" ++ (suite ++ ", " ++ name) ++ ")" := by
    simp only [String.append_assoc]
  have hcs : (suite ++ ", " ++ name).toList = suite.toList ++ ',' :: ' ' :: name.toList := by
    rw [String.append_assoc, String.toList_append, String.toList_append]
    rfl
  have hpass : ∀ c ∈ suite.toList, (c != ',') = true := by
    intro c hc
    have : c ≠ ',' := fun heq => hsuite (heq ▸ hc)
    simpa using this
  have hname : between? ", " "" (String.ofList (',' :: ' ' :: name.toList)) = some name := by
    rw [between?_eq_some, String.append_empty, ← String.toList_inj, String.toList_ofList,
      String.toList_append]
    rfl
  rw [hline, test?, between?_append, Option.bind_eq_bind, Option.bind_some, hcs,
    List.dropWhile_append_of_pos hpass, List.takeWhile_append_of_pos hpass,
    List.dropWhile_cons_of_neg (by decide), List.takeWhile_cons_of_neg (by decide), hname,
    List.append_nil, Option.bind_some, String.ofList_toList]
  rfl

/-- A line that begins otherwise begins no test. -/
theorem test?_of_head {l : String} (h : l.toList.head? ≠ some 'T') : test? l = none := by
  rw [test?, between?_of_head (by decide)]
  · rfl
  · exact h

/-- The message of a skipped test does not begin like a test. -/
theorem head_message (message : String) :
    ("    GTEST_SKIP() << \"" ++ message ++ "\";").toList.head? ≠ some 'T' := by
  rw [String.append_assoc]
  exact head?_ne (by decide)

/-- A skipped test is what its second line begins. -/
theorem testsIn_skipped_eq (suite name message : String) :
    testsIn (skipped suite name message) = (test? ("TEST(" ++ suite ++ ", " ++ name ++ ")")).toList := by
  rw [testsIn, skipped, List.filterMap_cons_none (test?_of_head (by decide)), List.filterMap_cons,
    List.filterMap_cons_none (test?_of_head (by decide)),
    List.filterMap_cons_none (test?_of_head (head_message message)),
    List.filterMap_cons_none (test?_of_head (by decide)), List.filterMap_nil]
  cases test? ("TEST(" ++ suite ++ ", " ++ name ++ ")") <;> rfl

theorem testsIn_skipped {suite : String} (hsuite : ',' ∉ suite.toList) (name message : String) :
    testsIn (skipped suite name message) = [(suite, name)] := by
  rw [testsIn_skipped_eq, test?_line hsuite]
  rfl

/-- The lines above the classes begin with a slash or a number sign, if with anything. -/
theorem head?_above {c : Char} (hslash : c ≠ '/') (hhash : c ≠ '#') (h : Header)
    (spelling : String) : ∀ l ∈ banner h ++
    ["#include <gtest/gtest.h>", "", "#include <" ++ spelling ++ ">"],
    l.toList.head? ≠ some c := by
  have hcomment : some '/' ≠ some c := fun heq => hslash (Option.some.inj heq).symm
  have hinclude : some '#' ≠ some c := fun heq => hhash (Option.some.inj heq).symm
  intro l hl
  simp only [banner, List.cons_append, List.nil_append, List.mem_cons, List.not_mem_nil,
    or_false] at hl
  rcases hl with rfl | rfl | rfl | rfl | rfl
  · rw [String.append_assoc]
    exact head?_ne ⟨by decide, hcomment⟩
  · exact fun heq => nomatch heq
  · exact hinclude
  · exact fun heq => nomatch heq
  · rw [String.append_assoc]
    exact head?_ne ⟨by decide, hinclude⟩

/-- No line above the classes begins like a test. -/
theorem head_above (h : Header) (spelling : String) : ∀ l ∈ banner h ++
    ["#include <gtest/gtest.h>", "", "#include <" ++ spelling ++ ">"],
    l.toList.head? ≠ some 'T' :=
  head?_above (by decide) (by decide) h spelling

theorem testsIn_above (h : Header) (spelling : String) : testsIn (banner h ++
    ["#include <gtest/gtest.h>", "", "#include <" ++ spelling ++ ">"]) = [] :=
  List.filterMap_eq_nil_iff.mpr fun l hl => test?_of_head (head_above h spelling l hl)

theorem testsIn_append (ls ls' : List String) : testsIn (ls ++ ls') = testsIn ls ++ testsIn ls' :=
  List.filterMap_append

/-- The words of the methods of a class. A class without methods has one word. -/
def words (c : ClassDecl) : List String :=
  if c.methods.isEmpty then ["Placeholder"] else c.methods.map fun m => camelName m.name

theorem length_testNamesFrom (seen ws : List String) :
    (testNamesFrom seen ws).length = ws.length := by
  induction ws generalizing seen with
  | nil => rfl
  | cons w ws ih => rw [testNamesFrom, List.length_cons, List.length_cons, ih]

/-- The tests of a class are in its suite, one for each word. -/
theorem testsIn_classTests {c : ClassDecl} (hsuite : ',' ∉ (suite c).toList) :
    testsIn (classTests c) = (testNamesFrom [] (words c)).map (suite c, ·) := by
  unfold classTests words
  split
  · exact testsIn_skipped hsuite _ _
  · have hlength : (testNames c).length ≤ c.methods.length :=
      Nat.le_of_eq ((length_testNamesFrom _ _).trans (List.length_map _))
    have htest (nm : String × Method) : testsIn (methodTest c nm.1 nm.2) = [(suite c, nm.1)] :=
      testsIn_skipped hsuite _ _
    calc testsIn (((testNames c).zip c.methods).flatMap fun nm => methodTest c nm.1 nm.2)
        = ((testNames c).zip c.methods).flatMap fun nm => [(suite c, nm.1)] := by
          rw [testsIn, List.filterMap_flatMap]
          exact congrArg (List.flatMap · _) (funext htest)
      _ = ((testNames c).zip c.methods).map fun nm => (suite c, nm.1) := List.map_eq_flatMap.symm
      _ = (((testNames c).zip c.methods).map Prod.fst).map (suite c, ·) := by
          rw [List.map_map]
          rfl
      _ = (testNames c).map (suite c, ·) := by rw [List.map_fst_zip hlength]

/-- No name of a class or of one around it has a comma. -/
theorem notMem_suite {c : ClassDecl} (h : ∀ n ∈ c.outerClasses ++ [c.name], isIdentifier n.toList = true) :
    ',' ∉ (suite c).toList := by
  rw [suite, String.toList_append, String.toList_join, List.mem_append, List.mem_flatMap, not_or]
  refine ⟨?_, by decide⟩
  rintro ⟨n, hn, hmem⟩
  exact Text.notMem_of_isIdentifier (h n hn) (c := ',') (by decide) hmem

/-- **A unit test has one test for every method** and for every class without methods. -/
theorem testsIn_lines {h : Header} (spelling : String) (hclasses : h.classes ≠ [])
    (hnames : ∀ c ∈ h.classes, ∀ n ∈ c.outerClasses ++ [c.name], isIdentifier n.toList = true) :
    testsIn (lines h spelling) =
      h.classes.flatMap fun c => (testNamesFrom [] (words c)).map (suite c, ·) := by
  have hbody : testsIn (h.classes.flatMap classTests) =
      h.classes.flatMap fun c => (testNamesFrom [] (words c)).map (suite c, ·) := by
    rw [testsIn, List.filterMap_flatMap]
    exact List.flatMap_congr fun c hc => testsIn_classTests (notMem_suite (hnames c hc))
  rw [lines, if_neg (by simpa using hclasses), testsIn_append, testsIn_above, hbody,
    List.nil_append]

/-! ## 2. Numbers -/

/-- The name of a test when so many with the same word came before. -/
def numbered (word : String) (before : Nat) : String :=
  if before = 0 then word else word ++ toString (before + 1)

theorem toList_toString (n : Nat) : (toString n).toList = Nat.toDigits 10 n := by
  rw [Nat.toString_eq_repr, Nat.repr_eq_ofList_toDigits, String.toList_ofList]

/-- One word gives its names once each. -/
theorem numbered_inj {word : String} {i j : Nat} (h : numbered word i = numbered word j) :
    i = j := by
  have hlonger (k : Nat) : word ++ toString k ≠ word := by
    intro hk
    have hdigits := congrArg String.toList hk
    rw [String.toList_append, toList_toString] at hdigits
    exact Nat.toDigits_ne_nil (List.append_right_eq_self.mp hdigits)
  unfold numbered at h
  split at h <;> split at h
  · omega
  · exact absurd h.symm (hlonger _)
  · exact absurd h (hlonger _)
  · have hdigits := congrArg String.toList ((String.append_right_inj word).mp h)
    rw [toList_toString, toList_toString] at hdigits
    have hsame := congrArg (Nat.ofDigitChars 10 · 0) hdigits
    simp only [Nat.ofDigitChars_toDigits (by decide : 1 < 10) (by decide : 10 ≤ 10)] at hsame
    omega

/-- The numbers that a word uses up behind those before. -/
def Uses (seen ws : List String) (w : String) (i : Nat) : Prop :=
  seen.count w ≤ i ∧ i < seen.count w + ws.count w

theorem uses_cons {seen ws : List String} {v w : String} {i : Nat} :
    Uses seen (v :: ws) w i ↔ (w = v ∧ i = seen.count v) ∨ Uses (v :: seen) ws w i := by
  unfold Uses
  by_cases hw : w = v
  · subst hw
    rw [List.count_cons_self, List.count_cons_self]
    simp only [true_and]
    omega
  · have hv : ¬v = w := fun heq => hw heq.symm
    rw [List.count_cons_of_ne hv, List.count_cons_of_ne hv]
    simp [hw]

theorem testNamesFrom_cons (seen ws : List String) (w : String) :
    testNamesFrom seen (w :: ws) =
      numbered w (seen.count w) :: testNamesFrom (w :: seen) ws := by
  rw [testNamesFrom, numbered]
  congr 1
  simp only [beq_iff_eq]

/-- The names that words give: each word with the numbers that it uses up. -/
theorem mem_testNamesFrom {seen ws : List String} {n : String} :
    n ∈ testNamesFrom seen ws ↔ ∃ w i, Uses seen ws w i ∧ n = numbered w i := by
  induction ws generalizing seen with
  | nil =>
    refine iff_of_false List.not_mem_nil ?_
    rintro ⟨w, i, ⟨hle, hlt⟩, -⟩
    rw [List.count_nil] at hlt
    omega
  | cons v ws ih =>
    rw [testNamesFrom_cons, List.mem_cons, ih]
    constructor
    · rintro (rfl | ⟨w, i, huses, rfl⟩)
      · exact ⟨v, seen.count v, uses_cons.mpr (.inl ⟨rfl, rfl⟩), rfl⟩
      · exact ⟨w, i, uses_cons.mpr (.inr huses), rfl⟩
    · rintro ⟨w, i, huses, rfl⟩
      rcases uses_cons.mp huses with ⟨rfl, rfl⟩ | huses
      · exact .inl rfl
      · exact .inr ⟨w, i, huses, rfl⟩

/-- **No name is given twice, unless two words give it.** -/
theorem nodup_testNamesFrom {seen ws : List String} :
    (testNamesFrom seen ws).Nodup ↔ ∀ v w i j, Uses seen ws v i → Uses seen ws w j →
      numbered v i = numbered w j → v = w := by
  induction ws generalizing seen with
  | nil =>
    refine iff_of_true List.nodup_nil fun v w i j hv => ?_
    have hlt := hv.2
    have hle := hv.1
    rw [List.count_nil] at hlt
    omega
  | cons u ws ih =>
    rw [testNamesFrom_cons, List.nodup_cons, ih, mem_testNamesFrom]
    constructor
    · rintro ⟨hfirst, hrest⟩ v w i j hv hw heq
      rcases uses_cons.mp hv with ⟨rfl, rfl⟩ | hv <;> rcases uses_cons.mp hw with ⟨rfl, rfl⟩ | hw
      · rfl
      · exact absurd ⟨w, j, hw, heq⟩ hfirst
      · exact absurd ⟨v, i, hv, heq.symm⟩ hfirst
      · exact hrest v w i j hv hw heq
    · intro h
      refine ⟨?_, fun v w i j hv hw => h v w i j (uses_cons.mpr (.inr hv)) (uses_cons.mpr (.inr hw))⟩
      rintro ⟨w, j, hw, heq⟩
      have hsame := h u w _ j (uses_cons.mpr (.inl ⟨rfl, rfl⟩)) (uses_cons.mpr (.inr hw)) heq
      subst hsame
      -- the number of the first name is used up
      have hle := hw.1
      rw [List.count_cons_self, ← numbered_inj heq] at hle
      omega

/-! ## 3. Tests that are printed twice -/

/-- Two words of classes make one name. -/
def Meet (c c' : ClassDecl) (v w : String) : Prop :=
  ∃ i < (words c).count v, ∃ j < (words c').count w, numbered v i = numbered w j

instance (c c' : ClassDecl) (v w : String) : Decidable (Meet c c' v w) :=
  inferInstanceAs (Decidable (∃ i < _, ∃ j < _, _ = _))

theorem uses_nil {ws : List String} {w : String} {i : Nat} : Uses [] ws w i ↔ i < ws.count w := by
  rw [Uses, List.count_nil, Nat.zero_add]
  exact and_iff_right (Nat.zero_le i)

theorem mem_of_lt_count {ws : List String} {w : String} {i : Nat} (h : i < ws.count w) : w ∈ ws :=
  List.count_pos_iff.mp (Nat.lt_of_le_of_lt (Nat.zero_le i) h)

theorem nodup_testNames {c : ClassDecl} :
    (testNamesFrom [] (words c)).Nodup ↔
      ∀ v ∈ words c, ∀ w ∈ words c, Meet c c v w → v = w := by
  rw [nodup_testNamesFrom]
  simp only [uses_nil]
  constructor
  · rintro h v - w - ⟨i, hi, j, hj, heq⟩
    exact h v w i j hi hj heq
  · intro h v w i j hi hj heq
    exact h v (mem_of_lt_count hi) w (mem_of_lt_count hj) ⟨i, hi, j, hj, heq⟩

theorem disjoint_testNames {c c' : ClassDecl} :
    List.Disjoint ((testNamesFrom [] (words c)).map (suite c, ·))
        ((testNamesFrom [] (words c')).map (suite c', ·)) ↔
      (suite c = suite c' → ∀ v ∈ words c, ∀ w ∈ words c', ¬Meet c c' v w) := by
  have hnames {c : ClassDecl} {n : String} : n ∈ testNamesFrom [] (words c) ↔
      ∃ w ∈ words c, ∃ i < (words c).count w, n = numbered w i := by
    rw [mem_testNamesFrom]
    simp only [uses_nil]
    constructor
    · rintro ⟨w, i, hi, heq⟩
      exact ⟨w, mem_of_lt_count hi, i, hi, heq⟩
    · rintro ⟨w, -, i, hi, heq⟩
      exact ⟨w, i, hi, heq⟩
  constructor
  · rintro h hsuite v hv w hw ⟨i, hi, j, hj, heq⟩
    refine h (List.mem_map_of_mem (hnames.mpr ⟨v, hv, i, hi, rfl⟩)) ?_
    rw [hsuite, heq]
    exact List.mem_map_of_mem (hnames.mpr ⟨w, hw, j, hj, rfl⟩)
  · intro h t ht ht'
    obtain ⟨n, hn, rfl⟩ := List.mem_map.mp ht
    obtain ⟨n', hn', heq⟩ := List.mem_map.mp ht'
    obtain ⟨hsuite, rfl⟩ := Prod.mk.inj heq
    obtain ⟨v, hv, i, hi, heq⟩ := hnames.mp hn
    obtain ⟨w, hw, j, hj, heq'⟩ := hnames.mp hn'
    exact h hsuite.symm v hv w hw ⟨i, hi, j, hj, heq.symm.trans heq'⟩

/-- **No test is printed twice, unless two words make one name**: two words of one class, or
words of two classes with one suite. -/
theorem tests_distinct_iff {h : Header} (spelling : String)
    (hnames : ∀ c ∈ h.classes, ∀ n ∈ c.outerClasses ++ [c.name], isIdentifier n.toList = true) :
    (testsIn (lines h spelling)).Nodup ↔
      (∀ c ∈ h.classes, ∀ v ∈ words c, ∀ w ∈ words c, Meet c c v w → v = w) ∧
        h.classes.Pairwise fun c c' =>
          suite c = suite c' → ∀ v ∈ words c, ∀ w ∈ words c', ¬Meet c c' v w := by
  by_cases hclasses : h.classes = []
  · have hone : (testsIn (lines h spelling)).Nodup := by
      rw [lines, if_pos (by rw [hclasses]; rfl), testsIn_append, testsIn_above, List.nil_append,
        placeholder, testsIn_skipped_eq]
      cases test? _ with
      | none => exact List.nodup_nil
      | some t => exact List.nodup_singleton t
    rw [hclasses]
    exact iff_of_true hone ⟨fun _ hc => (nomatch hc), List.Pairwise.nil⟩
  · rw [testsIn_lines spelling hclasses hnames, List.nodup_flatMap]
    refine and_congr (forall₂_congr fun c _ => ?_) ?_
    · rw [List.nodup_map_iff fun _ _ heq => (Prod.mk.inj heq).2, nodup_testNames]
    · exact List.Pairwise.iff fun c c' => disjoint_testNames

/-- A header with the class `Math` and methods of the given names. -/
def mathHeader (names : List String) : Header where
  name := "math.h"
  namespaces := []
  classes := [{ ClassDecl.describe "Math" [] [] with
    methods := names.map fun n => .describe n "void" [] [] }]
  includes := []

theorem overloads_told_apart :
    (∀ c ∈ (mathHeader ["add", "add", "scale"]).classes, ∀ n ∈ c.outerClasses ++ [c.name],
      isIdentifier n.toList = true) ∧
    (testsIn (lines (mathHeader ["add", "add", "scale"]) "math.h")).Nodup := by
  have hnames : ∀ c ∈ (mathHeader ["add", "add", "scale"]).classes,
      ∀ n ∈ c.outerClasses ++ [c.name], isIdentifier n.toList = true := by decide
  refine ⟨hnames, (tests_distinct_iff "math.h" hnames).mpr ⟨by decide +kernel, by decide +kernel⟩⟩

/-- The second `add` takes the name of `add2`. -/
theorem overload_takes_name :
    (∀ c ∈ (mathHeader ["add", "add", "add2"]).classes, (∀ n ∈ c.namespaces ++ c.outerClasses ++
      [c.name] ++ c.methods.map Method.name, isIdentifier n.toList = true)) ∧
    ((mathHeader ["add", "add", "add2"]).classes.map ClassDecl.qualifiedName).Nodup ∧
    ¬(testsIn (lines (mathHeader ["add", "add", "add2"]) "math.h")).Nodup := by
  decide +kernel

end Scaffold.Artifact.UnitTest
