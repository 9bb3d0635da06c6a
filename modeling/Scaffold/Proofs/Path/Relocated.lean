import Mathlib.Data.List.Infix
import Scaffold.Proofs.Project.Standing

/-!
# Where relocated paths lie

* `relocate_first` -- **the first segment that names the source directory is
  replaced**, whatever stands before it; `relocate_outside`, `relocate_cases`: there is
  no other way for a path to be relocated;
* `StraightBehind` -- from the source directory on, the path does not go up;
  `StraightBehind.relocate`: **then it lies in the tree it is relocated to**;
* `testRootOf_first` -- the root of the tests is **the outermost test tree on the
  path**, so it is the one that was put there unless there was one before.
-/
namespace Scaffold.Path

variable {sourceDir : String} {A B L T : List String}

/-! ## 1. Relocation -/

theorem relocateFrom_first {target done : Path} (hsource : sourceDir ≠ "..")
    (hA : sourceDir ∉ A) : relocateFrom sourceDir target done ((A ++ sourceDir :: B).map stepOf) =
      some (((done.walk (A.map stepOf)).join target).walk (B.map stepOf)) := by
  induction A generalizing done with
  | nil =>
    have hstep : stepOf sourceDir = .name sourceDir := by
      unfold stepOf
      rw [if_neg (by simpa using hsource)]
    rw [List.nil_append, List.map_cons, relocateFrom, hstep, if_pos (by simp)]
    rfl
  | cons s A ih =>
    have hs : s ≠ sourceDir := fun e => hA (e ▸ List.mem_cons_self)
    have hother : ¬(stepOf s == .name sourceDir) = true := by
      intro h
      have htext := congrArg Component.text (by simpa using h : stepOf s = .name sourceDir)
      rw [text_stepOf] at htext
      exact hs htext
    rw [List.cons_append, List.map_cons, relocateFrom, if_neg hother,
      ih fun h => hA (List.mem_cons_of_mem s h)]
    simp [walk]

/-- **The first segment that names the source directory is replaced.** -/
theorem relocate_first (hneat : ∀ s ∈ A ++ sourceDir :: B, idle s = false)
    (hsource : sourceDir ≠ "..") (hA : sourceDir ∉ A) (hT : ∀ s ∈ T, idle s = false) :
    relocate ⟨false, A ++ sourceDir :: B⟩ sourceDir ⟨false, T⟩ = .ok ⟨false, A ++ T ++ B⟩ := by
  have hAneat : ∀ s ∈ A, idle s = false := fun s hs => hneat s (List.mem_append_left _ hs)
  have hBneat : ∀ s ∈ B, idle s = false := fun s hs => hneat s (by simp [hs])
  have hTneat : (⟨false, A ++ T⟩ : Path).Neat := by
    intro s hs
    rcases List.mem_append.mp hs with hs | hs
    · exact hAneat s hs
    · exact hT s hs
  have hfrom : relocateFrom sourceDir ⟨false, T⟩ Path.empty
      (⟨false, A ++ sourceDir :: B⟩ : Path).components = some ⟨false, A ++ T ++ B⟩ := by
    rw [Neat.components (p := ⟨false, A ++ sourceDir :: B⟩) hneat]
    change relocateFrom sourceDir ⟨false, T⟩ Path.empty ((A ++ sourceDir :: B).map stepOf) = _
    rw [relocateFrom_first hsource hA, Neat.walk (p := Path.empty) (by simp [Neat, Path.empty]) hAneat]
    have hjoin : (⟨false, A⟩ : Path).join ⟨false, T⟩ = ⟨false, A ++ T⟩ := by
      unfold join
      rw [if_neg (by simp), openEnd_eq_self hAneat]
    change some (((⟨false, A⟩ : Path).join ⟨false, T⟩).walk (B.map stepOf)) = _
    rw [hjoin, hTneat.walk hBneat]
  unfold Scaffold.relocate
  rw [hfrom]

/-- Without such a segment a path is not relocated. -/
theorem relocate_outside {target : Path} (hneat : ∀ s ∈ L, idle s = false)
    (h : sourceDir ∉ L ∨ sourceDir = "..") :
    relocate ⟨false, L⟩ sourceDir target = .error (.outsideSourceTree ⟨false, L⟩ sourceDir) := by
  have hother : ∀ s ∈ L, ¬(stepOf s == .name sourceDir) = true := by
    intro s hs heq
    have heq : stepOf s = .name sourceDir := by simpa using heq
    have htext := congrArg Component.text heq
    rw [text_stepOf] at htext
    have htext : s = sourceDir := htext
    rcases h with h | h
    · exact h (htext ▸ hs)
    · rw [htext, h] at heq
      cases heq
  have hfrom : ∀ (L : List String) (done : Path),
      (∀ s ∈ L, ¬(stepOf s == .name sourceDir) = true) →
        relocateFrom sourceDir target done (L.map stepOf) = none := by
    intro L
    induction L with
    | nil => exact fun _ _ => rfl
    | cons s L ih =>
      intro done hL
      rw [List.map_cons, relocateFrom, if_neg (hL s List.mem_cons_self)]
      exact ih _ fun t ht => hL t (List.mem_cons_of_mem s ht)
  have hnone : relocateFrom sourceDir target Path.empty (⟨false, L⟩ : Path).components = none := by
    rw [Neat.components (p := ⟨false, L⟩) hneat]
    exact hfrom L Path.empty hother
  unfold Scaffold.relocate
  rw [hnone]

/-- A path that is relocated is so at the first segment that names the source
directory. -/
theorem relocate_cases {q : Path} (hneat : ∀ s ∈ L, idle s = false) (hT : ∀ s ∈ T, idle s = false)
    (hq : relocate ⟨false, L⟩ sourceDir ⟨false, T⟩ = .ok q) : sourceDir ≠ ".." ∧
      ∃ A B, L = A ++ sourceDir :: B ∧ sourceDir ∉ A ∧ q = ⟨false, A ++ T ++ B⟩ := by
  by_cases h : sourceDir ∉ L ∨ sourceDir = ".."
  · rw [relocate_outside hneat h] at hq
    cases hq
  · obtain ⟨hmem, hsource⟩ := not_or.mp h
    obtain ⟨A, B, rfl, hA⟩ := List.eq_append_cons_of_mem (not_not.mp hmem)
    rw [relocate_first hneat hsource hA hT] at hq
    cases hq
    exact ⟨hsource, A, B, rfl, hA, rfl⟩

/-! ## 2. Paths that are straight behind the source directory -/

theorem dropWhile_first {S : String} (hA : S ∉ A) : (A ++ S :: B).dropWhile (· != S) = S :: B := by
  rw [List.dropWhile_append_of_pos fun s hs => by simpa using fun e : s = S => hA (e ▸ hs),
    List.dropWhile_cons_of_neg (by simp)]

theorem takeWhile_first {S : String} (hA : S ∉ A) : (A ++ S :: B).takeWhile (· != S) = A := by
  rw [List.takeWhile_append_of_pos fun s hs => by simpa using fun e : s = S => hA (e ▸ hs),
    List.takeWhile_cons_of_neg (by simp), List.append_nil]

/-- From the first segment that names the source directory on, the path does not
go up. -/
def StraightBehind (S : String) (p : Path) : Prop :=
  S = ".." ∨ ".." ∉ p.names.dropWhile (· != S)

instance (S : String) (p : Path) : Decidable (p.StraightBehind S) :=
  inferInstanceAs (Decidable (_ ∨ _))

/-- What stands behind the source directory are names, on the path and below it. -/
theorem StraightBehind.isName {p : Path} {S : String} {N : List String}
    (h : p.StraightBehind S) (hS : S ≠ "..") (hA : S ∉ A) (hN : ∀ s ∈ N, IsName s) (hsplit : p.names ++ N = A ++ S :: B) : ∀ s ∈ B, IsName s := by
  have hup := h.resolve_left hS
  intro s hs
  have hmem : s ∈ (p.names ++ N).dropWhile (· != S) := by
    rw [hsplit, dropWhile_first hA]
    exact List.mem_cons_of_mem S hs
  rw [List.dropWhile_append] at hmem
  have hown : s ∈ p.names.dropWhile (· != S) → IsName s := by
    intro hs
    have hidle := (mem_names ((List.dropWhile_suffix _).subset hs)).1
    exact isName_of_not_idle hidle fun e => hup (e ▸ hs)
  split at hmem
  · exact hN s ((List.dropWhile_suffix _).subset hmem)
  · exact (List.mem_append.mp hmem).elim hown (hN s)

/-- **Relocated, such a path is followed by names only**, and so are the paths above it
and below it. -/
theorem StraightBehind.relocate {p q : Path} {M N : List String}
    (h : p.StraightBehind sourceDir) (hLM : L ++ M = p.names ++ N) (hN : ∀ s ∈ N, IsName s)
    (hT : ∀ s ∈ T, idle s = false) (hq : relocate ⟨false, L⟩ sourceDir ⟨false, T⟩ = .ok q) :
    ∃ A B, L = A ++ sourceDir :: B ∧ sourceDir ∉ A ∧ (∀ s ∈ B, IsName s) ∧
      q = ⟨false, A ++ T ++ B⟩ := by
  have hL : ∀ s ∈ L, idle s = false := by
    intro s hs
    have hs : s ∈ p.names ++ N := hLM ▸ List.mem_append_left _ hs
    rcases List.mem_append.mp hs with hs | hs
    · exact (mem_names hs).1
    · exact (hN s hs).not_idle
  obtain ⟨hS, A, B, rfl, hA, rfl⟩ := relocate_cases hL hT hq
  have hsplit : p.names ++ N = A ++ sourceDir :: (B ++ M) := by
    rw [← hLM, List.append_assoc, List.cons_append]
  exact ⟨A, B, rfl, hA, fun s hs => h.isName hS hA hN hsplit s (List.mem_append_left _ hs), rfl⟩

/-! ## 3. The root of the tests -/

/-- A neat path ends with the directory of the tests if its segments do. -/
theorem endsWith_tests (hneat : ∀ s ∈ L, idle s = false) :
    (⟨false, L⟩ : Path).endsWith testsDir = true ↔ ["tests", "ut"] <:+ L := by
  have htests : testsDir.components = ["tests", "ut"].map stepOf := by decide
  have hinj : Function.Injective stepOf := fun s t h => by
    rw [← text_stepOf s, h, text_stepOf]
  unfold endsWith
  rw [htests, Neat.components (p := ⟨false, L⟩) hneat, List.isSuffixOf_iff_suffix]
  change ["tests", "ut"].map stepOf <:+ L.map stepOf ↔ _
  exact List.suffix_map_iff_of_injective hinj

/-- The test trees on a path, innermost first. -/
def testRoots (p : Path) : List Path := p.ancestors.filter (·.endsWith testsDir)

theorem testRoots_concat {s : String} (hneat : ∀ t ∈ L ++ [s], idle t = false) :
    testRoots ⟨false, L ++ [s]⟩ =
      (if ["tests", "ut"] <:+ L ++ [s] then [⟨false, L ++ [s]⟩] else []) ++ testRoots ⟨false, L⟩ := by
  unfold testRoots
  rw [ancestors_concat hneat, List.filter_cons]
  by_cases h : ["tests", "ut"] <:+ L ++ [s]
  · rw [if_pos ((endsWith_tests hneat).mpr h), if_pos h]
    rfl
  · rw [if_neg (mt (endsWith_tests hneat).mp h), if_neg h]
    rfl

/-- Where there is no test tree on a path, there is none above it. -/
theorem testRoots_none : ∀ {L : List String}, (∀ s ∈ L, idle s = false) →
    ¬["tests", "ut"] <:+: L → testRoots ⟨false, L⟩ = [] := by
  intro L
  induction L using List.reverseRecOn with
  | nil => exact fun _ _ => by decide +kernel
  | append_singleton L s ih =>
    intro hneat h
    rw [testRoots_concat hneat, if_neg fun hs => h hs.isInfix, List.nil_append]
    exact ih (fun t ht => hneat t (List.mem_append_left _ ht))
      fun hi => h (hi.trans (List.prefix_append L [s]).isInfix)

/-- **The root of the tests is the outermost test tree on the path.** -/
theorem testRootOf_first {M : List String}
    (hneat : ∀ s ∈ A ++ ["tests", "ut"] ++ M, idle s = false) (hA : ¬["tests", "ut"] <:+: A) :
    Tests.testRootOf ⟨false, A ++ ["tests", "ut"] ++ M⟩ = ⟨false, A ++ ["tests", "ut"]⟩ := by
  have hlast : (testRoots ⟨false, A ++ ["tests", "ut"] ++ M⟩).getLast? =
      some ⟨false, A ++ ["tests", "ut"]⟩ := by
    induction M using List.reverseRecOn with
    | nil =>
      rw [List.append_nil] at hneat ⊢
      have hsplit : A ++ ["tests", "ut"] = (A ++ ["tests"]) ++ ["ut"] := by simp
      have hbefore : ∀ s ∈ A ++ ["tests"], idle s = false := fun s hs =>
        hneat s (by rw [hsplit]; exact List.mem_append_left _ hs)
      have hnone : ¬["tests", "ut"] <:+: A ++ ["tests"] := by
        intro h
        rcases List.infix_concat_iff.mp h with h | h
        · have hend : (["tests"] ++ ["ut"] : List String) <:+ A ++ ["tests"] := h
          obtain ⟨X, hX⟩ := hend
          rw [← List.append_assoc] at hX
          exact absurd (List.append_singleton_inj.mp hX).2 (by decide)
        · exact hA h
      rw [hsplit] at hneat ⊢
      rw [testRoots_concat hneat, if_pos ⟨A, by simp⟩, testRoots_none hbefore hnone]
      rfl
    | append_singleton M s ih =>
      rw [← List.append_assoc] at hneat ⊢
      rw [testRoots_concat hneat, List.getLast?_append,
        ih fun t ht => hneat t (List.mem_append_left _ ht)]
      rfl
  unfold Tests.testRootOf
  change ((testRoots _).getLast?).getD testsDir = _
  rw [hlast]
  rfl

end Scaffold.Path
