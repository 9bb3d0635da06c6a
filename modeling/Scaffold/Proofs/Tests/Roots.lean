import Scaffold.Proofs.Outputs.Registration
import Scaffold.Proofs.Path.Relocated

/-!
# Test trees inside test trees

The directory of the tests is put where the source directory was, and the root of the tests
is looked for afterwards on the path that came of it. The two agree unless there is a test
tree before the source directory already.

* `split_outermost` -- a path through a test tree is cut behind the outermost one;
* `testRootOf_eq_iff` -- **the root is the one that was put there exactly when there is none
  before it**;
* `chain_top`, `chain_inside_iff` -- a chain comes to its top in the end, so it stays in the
  inner tree exactly when the root does;
* `testRootOf_inserted` -- both for any path through the source directory.
-/
namespace Scaffold

open Scaffold.Path (IsName)

variable {A B : List String} {P : Project}

/-! ## 1. The outermost test tree -/

namespace Path

/-- Where a path goes through test trees, one of them is the outermost. -/
theorem split_outermost (h : ["tests", "ut"] <:+: A) :
    ∃ X Y, A = X ++ ["tests", "ut"] ++ Y ∧ ¬["tests", "ut"] <:+: X := by
  induction A using List.reverseRecOn with
  | nil => simp at h
  | append_singleton A s ih =>
    by_cases hA : ["tests", "ut"] <:+: A
    · obtain ⟨X, Y, rfl, hX⟩ := ih hA
      exact ⟨X, Y ++ [s], by simp, hX⟩
    · -- the tree ends with the last segment, so what is before it is all before that
      obtain ⟨X, hsplit⟩ := (List.infix_concat_iff.mp h).resolve_right hA
      refine ⟨X, [], by rw [hsplit, List.append_nil], fun hX => hA ?_⟩
      have hlong : (X ++ ["tests"]) ++ ["ut"] = A ++ [s] := by rw [← hsplit]; simp
      rw [← (List.append_inj' hlong rfl).1]
      exact hX.trans (List.prefix_append X _).isInfix

/-- The root of the tests is where the path is cut. -/
theorem exists_testRootOf {L : List String} (hneat : ∀ s ∈ L, idle s = false)
    (h : ["tests", "ut"] <:+: L) : ∃ X Y, L = X ++ ["tests", "ut"] ++ Y ∧
      Tests.testRootOf ⟨false, L⟩ = ⟨false, X ++ ["tests", "ut"]⟩ := by
  obtain ⟨X, Y, rfl, hX⟩ := split_outermost h
  exact ⟨X, Y, rfl, testRootOf_first hneat hX⟩

/-- **The root of the tests is the one that was put there** exactly when there is none before
it. -/
theorem testRootOf_eq_iff (hneat : ∀ s ∈ A ++ ["tests", "ut"] ++ B, idle s = false) :
    Tests.testRootOf ⟨false, A ++ ["tests", "ut"] ++ B⟩ = ⟨false, A ++ ["tests", "ut"]⟩ ↔
      ¬["tests", "ut"] <:+: A := by
  refine ⟨fun hroot hA => ?_, testRootOf_first hneat⟩
  obtain ⟨X, Y, rfl, hX⟩ := split_outermost hA
  have hout := testRootOf_first (A := X) (M := Y ++ ["tests", "ut"] ++ B)
    (by simpa using hneat) hX
  have hlength := congrArg (fun p : Path => p.segments.length) <|
    hout.symm.trans ((congrArg Tests.testRootOf (by simp)).trans hroot)
  simp only [List.length_append, List.length_cons, List.length_nil] at hlength
  omega

/-- A path is relocated by its steps, however they are spelled. -/
theorem relocate_of_components {p q T : Path} {sourceDir : String} {target : Path}
    (h : p.components = q.components) (hq : relocate q sourceDir target = .ok T) :
    relocate p sourceDir target = .ok T := by
  unfold relocate at hq ⊢
  rw [h]
  split at hq
  · exact hq
  · cases hq

end Path

/-! ## 2. Chains -/

namespace BuildTree

/-- **A chain comes to its top**: it declares the directory right below it there. -/
theorem chain_top {T : Path} : ∀ {M : List String} {leaf : Path}, M ≠ [] →
    leaf.components = T.components ++ M.map .name →
    ∃ x ∈ chain T leaf, x.1.components = T.components := by
  intro M
  induction M using List.reverseRecOn with
  | nil => exact fun hM => absurd rfl hM
  | append_singleton M s ih =>
    intro leaf _ hleaf
    obtain ⟨K, hchain, hK⟩ := chain_concat hleaf
    rw [hchain]
    by_cases hM : M = []
    · refine ⟨(K, s), List.mem_cons_self, ?_⟩
      rw [hK, hM, List.map_nil, List.append_nil]
    · obtain ⟨x, hx, htop⟩ := ih hM hK
      exact ⟨x, List.mem_cons_of_mem _ hx, htop⟩

/-- **A chain stays in the tree that was put there** exactly when there is no other before
it. -/
theorem chain_inside_iff (hA : ∀ s ∈ A, IsName s) (hB : ∀ s ∈ B, IsName s) :
    (∀ x ∈ chain (Tests.testRootOf ⟨false, A ++ ["tests", "ut"] ++ B⟩)
        ⟨false, A ++ ["tests", "ut"] ++ B⟩,
      x.1.startsWith ⟨false, A ++ ["tests", "ut"]⟩ = true) ↔ ¬["tests", "ut"] <:+: A := by
  have hroot : ∀ s ∈ A ++ ["tests", "ut"], IsName s :=
    List.forall_mem_append.mpr ⟨hA, Path.tests_neat⟩
  have hleaf : ∀ s ∈ A ++ ["tests", "ut"] ++ B, IsName s :=
    List.forall_mem_append.mpr ⟨hroot, hB⟩
  have hneat : ∀ s ∈ A ++ ["tests", "ut"] ++ B, Path.idle s = false :=
    fun s hs => (hleaf s hs).not_idle
  constructor
  · intro hinside htests
    obtain ⟨X, Y, rfl, hX⟩ := Path.split_outermost htests
    have hsplit : X ++ ["tests", "ut"] ++ Y ++ ["tests", "ut"] ++ B =
        X ++ ["tests", "ut"] ++ (Y ++ ["tests", "ut"] ++ B) := by simp
    have htop : ∀ s ∈ X ++ ["tests", "ut"], IsName s := fun s hs =>
      hA s (List.mem_append_left Y hs)
    rw [hsplit] at hleaf hneat hinside
    rw [Path.testRootOf_first hneat hX] at hinside
    obtain ⟨x, hx, hcomponents⟩ := chain_top
      (T := ⟨false, X ++ ["tests", "ut"]⟩) (M := Y ++ ["tests", "ut"] ++ B) (by simp)
      (by rw [Path.components_names hleaf, Path.components_names htop, List.map_append])
    -- the outer root is shorter than the inner one
    have hprefix := hinside x hx
    rw [Path.startsWith, hcomponents, Path.components_names hroot, Path.components_names htop,
      List.isPrefixOf_iff_prefix] at hprefix
    have hlength := hprefix.length_le
    simp only [List.length_map, List.length_append, List.length_cons, List.length_nil] at hlength
    omega
  · intro htests x hx
    rw [Path.testRootOf_first hneat htests] at hx
    obtain ⟨M, N, rfl, hxM⟩ := chain_below hneat x hx
    rw [← List.append_assoc] at hleaf
    rw [hxM, Path.startsWith_names (fun s hs => hleaf s (List.mem_append_left N hs)) hroot]
    exact List.prefix_append _ M

end BuildTree

/-! ## 3. Paths through the source directory -/

namespace Tests

/-- **The root of the tests and the chain up to it**, for any path of names through the source
directory: the source directory is replaced, and the root is the one that was put there, so
that lists are changed nowhere but in its tree, exactly when the path goes through no test
tree before that. -/
theorem testRootOf_inserted {p : Path}
    (hp : p.components = (A ++ P.config.sourceDir :: B).map .name)
    (hsource : P.config.sourceDir ∉ A) :
    ∃ T, relocate p P.config.sourceDir testsDir = .ok T ∧
      T = ⟨false, A ++ ["tests", "ut"] ++ B⟩ ∧
      (testRootOf T = ⟨false, A ++ ["tests", "ut"]⟩ ↔ ¬["tests", "ut"] <:+: A) ∧
      BuildTree.registerChain P T (testRootOf T) =
        Job.each (fun x => BuildTree.declare P x.1 x.2) (BuildTree.chain (testRootOf T) T) ∧
      ((∀ x ∈ BuildTree.chain (testRootOf T) T,
          x.1.startsWith ⟨false, A ++ ["tests", "ut"]⟩ = true) ↔ ¬["tests", "ut"] <:+: A) := by
  have hnames : ∀ s ∈ A ++ P.config.sourceDir :: B, IsName s := fun s hs =>
    Path.isName_of_mem_components (p := p) (hp ▸ List.mem_map_of_mem hs)
  have hA : ∀ s ∈ A, IsName s := fun s hs => hnames s (List.mem_append_left _ hs)
  have hB : ∀ s ∈ B, IsName s := fun s hs =>
    hnames s (List.mem_append_right _ (List.mem_cons_of_mem _ hs))
  have hT : ∀ s ∈ A ++ ["tests", "ut"] ++ B, IsName s :=
    List.forall_mem_append.mpr ⟨List.forall_mem_append.mpr ⟨hA, Path.tests_neat⟩, hB⟩
  have hneat : ∀ s ∈ A ++ ["tests", "ut"] ++ B, Path.idle s = false :=
    fun s hs => (hT s hs).not_idle
  have hrelocate : relocate p P.config.sourceDir testsDir = .ok ⟨false, A ++ ["tests", "ut"] ++ B⟩ :=
    Path.relocate_of_components (hp.trans (Path.components_names hnames).symm) <|
      Path.relocate_first (fun s hs => (hnames s hs).not_idle)
        (hnames _ (by simp)).2.2 hsource (fun s hs => (Path.tests_neat s hs).not_idle)
  refine ⟨_, hrelocate, rfl, Path.testRootOf_eq_iff hneat, ?_, BuildTree.chain_inside_iff hA hB⟩
  -- the root, whichever it is, is a beginning of the path
  have hbegins : (⟨false, A ++ ["tests", "ut"] ++ B⟩ : Path).startsWith
      (testRootOf ⟨false, A ++ ["tests", "ut"] ++ B⟩) = true := by
    obtain ⟨X, Y, hsplit, hroot⟩ := Path.exists_testRootOf hneat ⟨A, B, rfl⟩
    rw [hroot, Path.startsWith_names hT fun s hs => hT s (hsplit ▸ List.mem_append_left Y hs), hsplit]
    exact List.prefix_append _ Y
  rw [BuildTree.registerChain, if_pos hbegins, BuildTree.declareUpTo_eq]

theorem firmware_root_inserted :
    (Path.ofText "firmware//src/./drivers").components =
        (["firmware"] ++ Project.usual.config.sourceDir :: ["drivers"]).map .name ∧
      Project.usual.config.sourceDir ∉ ["firmware"] ∧
      ∃ T, relocate (Path.ofText "firmware//src/./drivers") Project.usual.config.sourceDir testsDir =
          .ok T ∧
        testRootOf T = ⟨false, ["firmware", "tests", "ut"]⟩ ∧
        ∀ x ∈ BuildTree.chain (testRootOf T) T,
          x.1.startsWith ⟨false, ["firmware", "tests", "ut"]⟩ = true := by
  have hsteps : (Path.ofText "firmware//src/./drivers").components =
      (["firmware"] ++ Project.usual.config.sourceDir :: ["drivers"]).map .name := by decide +kernel
  have hsource : Project.usual.config.sourceDir ∉ ["firmware"] := by decide
  obtain ⟨T, hT, -, hroot, -, hchain⟩ := testRootOf_inserted (P := .usual) hsteps hsource
  exact ⟨hsteps, hsource, T, hT, hroot.mpr (by decide), hchain.mpr (by decide)⟩

/-- A header in a source directory below `tests/ut`. -/
def nestedDisk : Disk :=
  ⟨[(["w"], .directory), (["w", "tests"], .directory), (["w", "tests", "ut"], .directory),
    (["w", "tests", "ut", "src"], .directory),
    (["w", "tests", "ut", "src", "x.h"], .file (.text "class X {};\n"))]⟩

/-- The root of the tests is the outer `tests/ut`, and not the one that was put there: the list of
the outer one is written too. -/
theorem outer_root_written :
    (⟨false, ["tests", "ut", "src"]⟩ : Path).components =
        (["tests", "ut"] ++ Project.usual.config.sourceDir :: []).map .name ∧
      Project.usual.config.sourceDir ∉ ["tests", "ut"] ∧
      relocate ⟨false, ["tests", "ut", "src"]⟩ "src" testsDir =
        .ok ⟨false, ["tests", "ut", "tests", "ut"]⟩ ∧
      testRootOf ⟨false, ["tests", "ut", "tests", "ut"]⟩ ≠ ⟨false, ["tests", "ut", "tests", "ut"]⟩ ∧
      ((generate .usual false ⟨false, ["tests", "ut", "src", "x.h"]⟩).run
        nestedDisk).value.isOk = true ∧
      ((generate .usual false ⟨false, ["tests", "ut", "src", "x.h"]⟩).run nestedDisk).disk.find?
        ["w", "tests", "ut", "CMakeLists.txt"] =
          some (.file (.text (Artifact.BuildList.started "tests"))) := by
  decide +kernel

end Tests

end Scaffold
