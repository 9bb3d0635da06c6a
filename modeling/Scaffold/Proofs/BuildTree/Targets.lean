import Mathlib.Data.List.Basic
import Scaffold.Proofs.BuildList.Reading
import Scaffold.Proofs.BuildTree.Plans
import Scaffold.Proofs.Path.Pieces

/-!
# Names of targets

The target of a test directory is named by all the steps of its path, with underscores
between them. A name on the path may have underscores of its own, and these look alike.

* `pieces_intercalate` -- the name of a target is cut at its underscores into **the pieces
  of the names on the path**; `testNameOf_eq_iff`: two directories have targets of one name
  just when these pieces are the same;
* `testNameOf_ne` -- **without underscores in the names** different directories have
  different targets;
* `targetName?` -- the name that a build list sets; `targetName?_text`: it is read back;
* `targets_equal_iff` -- so it is with **the build lists that are written**.
-/
namespace Scaffold

open Artifact (BuildList)

namespace Artifact.BuildList

/-! ## 1. Pieces of names -/

/-- What stands between the underscores of a name. -/
def pieces (name : String) : List (List Char) := name.toList.splitOn '_'

theorem pieces_injective : Function.Injective pieces := by
  intro a b h
  have hjoin := congrArg (List.intercalate ['_']) h
  unfold pieces at hjoin
  rw [List.intercalate_splitOn, List.intercalate_splitOn] at hjoin
  exact String.toList_injective hjoin

theorem pieces_of_notMem {name : String} (h : '_' ∉ name.toList) : pieces name = [name.toList] := by
  refine List.splitOnP_eq_singleton fun c hc => ?_
  simpa using fun e : c = '_' => h (e ▸ hc)

/-- **Names that are joined by underscores fall apart into the pieces of all of them.** -/
theorem pieces_intercalate : ∀ {L : List String}, L ≠ [] →
    pieces ("_".intercalate L) = L.flatMap pieces
  | [], hne => absurd rfl hne
  | [s], _ => by rw [String.intercalate_singleton, List.flatMap_singleton]
  | s :: t :: L, _ => by
      have hsplit : ("_".intercalate (s :: t :: L)).toList =
          s.toList ++ '_' :: ("_".intercalate (t :: L)).toList := by
        rw [String.intercalate_cons_cons, String.toList_append, String.toList_append,
          List.append_assoc]
        rfl
      have hrest := pieces_intercalate (L := t :: L) (by simp)
      unfold pieces at hrest ⊢
      rw [hsplit, List.splitOn, List.splitOnP_append_cons _ _ (by decide), List.flatMap_cons, ← hrest]
      rfl

theorem flatMap_pieces_eq_nil {L : List String} : L.flatMap pieces = [] ↔ L = [] := by
  constructor
  · intro h
    cases L with
    | nil => rfl
    | cons s L =>
      rw [List.flatMap_cons, List.append_eq_nil_iff] at h
      exact absurd h.1 (List.splitOn_ne_nil _ _)
  · rintro rfl
    rfl

/-- The text of names that are joined is not empty. -/
theorem intercalate_ne_empty {L : List String} (hL : ∀ s ∈ L, Path.IsName s) (hne : L ≠ []) :
    "_".intercalate L ≠ "" := by
  obtain ⟨s, L, rfl⟩ := List.exists_cons_of_ne_nil hne
  have hs : s ≠ "" := (hL s List.mem_cons_self).1
  by_cases hrest : L = []
  · rwa [hrest, String.intercalate_singleton]
  · rw [String.intercalate_cons_of_ne_nil hrest]
    simp [hs]

variable {leaf leaf' : Path} {L M : List String}

/-- The name of the target of a directory. -/
theorem testNameOf_names (h : leaf.components = L.map .name) :
    testNameOf leaf = "_".intercalate L := by
  unfold testNameOf Path.spelled
  rw [h, List.map_map]
  exact congrArg _ (List.map_id'' (fun _ => rfl) L)

/-- **Two directories have targets of one name** just when the names on their paths have
the same pieces. -/
theorem testNameOf_eq_iff (hleaf : leaf.components = L.map .name)
    (hleaf' : leaf'.components = M.map .name) (hL : ∀ s ∈ L, Path.IsName s)
    (hM : ∀ s ∈ M, Path.IsName s) :
    testNameOf leaf = testNameOf leaf' ↔ L.flatMap pieces = M.flatMap pieces := by
  rw [testNameOf_names hleaf, testNameOf_names hleaf']
  by_cases hLne : L = []
  · subst hLne
    rw [List.flatMap_nil, eq_comm (a := []), flatMap_pieces_eq_nil]
    constructor
    · intro h
      exact Classical.byContradiction fun hMne => intercalate_ne_empty hM hMne h.symm
    · rintro rfl
      rfl
  by_cases hMne : M = []
  · subst hMne
    rw [List.flatMap_nil, flatMap_pieces_eq_nil]
    exact ⟨fun h => absurd h (intercalate_ne_empty hL hLne), fun h => absurd h hLne⟩
  · rw [← pieces_intercalate hLne, ← pieces_intercalate hMne]
    exact pieces_injective.eq_iff.symm

/-- **Without underscores in the names, different directories have different targets.** -/
theorem testNameOf_ne (hleaf : leaf.components = L.map .name)
    (hleaf' : leaf'.components = M.map .name) (hL : ∀ s ∈ L, Path.IsName s ∧ '_' ∉ s.toList)
    (hM : ∀ s ∈ M, Path.IsName s ∧ '_' ∉ s.toList) (hne : L ≠ M) :
    testNameOf leaf ≠ testNameOf leaf' := by
  have hflat : ∀ {N : List String}, (∀ s ∈ N, Path.IsName s ∧ '_' ∉ s.toList) →
      N.flatMap pieces = N.map String.toList := by
    intro N hN
    induction N with
    | nil => rfl
    | cons s N ih =>
      rw [List.flatMap_cons, pieces_of_notMem (hN s List.mem_cons_self).2,
        ih fun t ht => hN t (List.mem_cons_of_mem s ht)]
      rfl
  intro h
  rw [testNameOf_eq_iff hleaf hleaf' (fun s hs => (hL s hs).1) fun s hs => (hM s hs).1,
    hflat hL, hflat hM] at h
  exact hne (List.map_injective_iff.mpr (fun _ _ h => String.toList_injective h) h)

/-! ## 2. Reading the name of a target -/

/-- The name that a line sets. -/
def setName? (line : List Char) : Option String := do
  let rest ← after? "set(UT_NAME ".toList line
  match rest.getLast? with
  | some ')' => some (String.ofList rest.dropLast)
  | _ => none

/-- The name of the target that the text of a build list sets. -/
def targetName? (text : String) : Option String := (Text.lines text.toList).findSome? setName?

theorem setName?_line (name : String) :
    setName? ("set(UT_NAME " ++ name ++ ")").toList = some name := by
  have hline : ("set(UT_NAME " ++ name ++ ")").toList =
      "set(UT_NAME ".toList ++ (name.toList ++ [')']) := by
    rw [String.toList_append, String.toList_append, List.append_assoc]
    rfl
  unfold setName?
  rw [hline, after?_append]
  simp

/-- The lines in front of the name of the target. -/
def heading : List String :=
  preamble ++ ["# This file is regenerated on every unit-test generation for its directory.", ""]

/-- **The name of the target is read back.** -/
theorem targetName?_text {b : BuildList} (h : '\n' ∉ b.testName.toList) :
    targetName? b.text = some b.testName := by
  obtain ⟨more, hmore⟩ : ∃ more,
      b.lines = (heading ++ ["set(UT_NAME " ++ b.testName ++ ")"]) ++ more := by
    unfold lines heading
    simp only [List.append_assoc]
    exact ⟨_, rfl⟩
  have hheading : ∀ l ∈ heading, ('\n' ∉ l.toList ∧ l.toList.getLast? ≠ some '\r') ∧
      setName? l.toList = none := by decide +kernel
  have hlines : ∀ l ∈ heading ++ ["set(UT_NAME " ++ b.testName ++ ")"],
      '\n' ∉ l.toList ∧ l.toList.getLast? ≠ some '\r' := by
    intro l hl
    rcases List.mem_append.mp hl with hl | hl
    · exact (hheading l hl).1
    · rw [List.mem_singleton.mp hl, String.toList_append, String.toList_append]
      refine ⟨?_, by rw [show ")".toList = [')'] from rfl, List.getLast?_concat]; decide⟩
      rw [List.mem_append, List.mem_append, not_or, not_or]
      exact ⟨⟨by decide, h⟩, by decide⟩
  have hnone : (heading.map String.toList).findSome? setName? = none := by
    rw [List.findSome?_eq_none_iff]
    intro l hl
    obtain ⟨l', hl', rfl⟩ := List.mem_map.mp hl
    exact (hheading l' hl').2
  unfold targetName? text
  rw [hmore, Text.lines_unlines_append hlines, List.map_append, List.append_assoc,
    List.findSome?_append, hnone, Option.none_or, List.map_singleton, List.singleton_append,
    List.findSome?_cons, setName?_line]

end Artifact.BuildList

/-! ## 3. Build lists that are written -/

namespace BuildTree

open Artifact.BuildList

variable {P : Project} {d d' : Disk} {leaf leaf' : Path} {L M : List String}

/-- The list that is written for a directory names its target. -/
theorem writeLeaf_names (sourceDir : Path) (hex : P.excludes (leaf.child BuildList.fileName) = false)
    (hrun : ((writeLeaf P leaf sourceDir).run d).value = .ok ()) : ∃ b : BuildList,
      ((writeLeaf P leaf sourceDir).run d).disk.readAt
        (P.absolute (leaf.child BuildList.fileName)) = .ok (.text b.text) ∧
      b.testName = testNameOf leaf := by
  rcases (writeLeaf_ends P leaf sourceDir).of_run_ok hrun with ⟨h, _⟩ | ⟨_, d₁, _, hwrite⟩
  · rw [hex] at h
    cases h
  · exact ⟨planned P d leaf sourceDir, Disk.readAt_changeAt hwrite, rfl⟩

/-- **When two directories have targets of one name.** The build lists that are written for
two directories, whose paths are made of names, name their targets alike just when the names
on the two paths have the same pieces; without underscores in them this is so for no two
directories. And where no name has a line feed in it, the text of the list shows the name
of the target. -/
theorem targets_equal_iff {S S' : Path} (hleaf : leaf.components = L.map .name)
    (hleaf' : leaf'.components = M.map .name) (hL : ∀ s ∈ L, Path.IsName s)
    (hM : ∀ s ∈ M, Path.IsName s) (hex : P.excludes (leaf.child BuildList.fileName) = false)
    (hex' : P.excludes (leaf'.child BuildList.fileName) = false)
    (hrun : ((writeLeaf P leaf S).run d).value = .ok ())
    (hrun' : ((writeLeaf P leaf' S').run d').value = .ok ()) : ∃ b b' : BuildList,
      ((writeLeaf P leaf S).run d).disk.readAt
        (P.absolute (leaf.child BuildList.fileName)) = .ok (.text b.text) ∧
      ((writeLeaf P leaf' S').run d').disk.readAt
        (P.absolute (leaf'.child BuildList.fileName)) = .ok (.text b'.text) ∧
      (b.testName = b'.testName ↔ L.flatMap pieces = M.flatMap pieces) ∧
      ((∀ s ∈ L ++ M, '_' ∉ s.toList) → L ≠ M → b.testName ≠ b'.testName) ∧
      ((∀ s ∈ L ++ M, '\n' ∉ s.toList) →
        targetName? b.text = some b.testName ∧ targetName? b'.text = some b'.testName) := by
  obtain ⟨b, hread, hname⟩ := writeLeaf_names S hex hrun
  obtain ⟨b', hread', hname'⟩ := writeLeaf_names S' hex' hrun'
  refine ⟨b, b', hread, hread', ?_, fun hplain hne => ?_, fun hline => ⟨?_, ?_⟩⟩
  · rw [hname, hname']
    exact testNameOf_eq_iff hleaf hleaf' hL hM
  · rw [hname, hname']
    exact testNameOf_ne hleaf hleaf'
      (fun s hs => ⟨hL s hs, hplain s (List.mem_append_left _ hs)⟩)
      (fun s hs => ⟨hM s hs, hplain s (List.mem_append_right _ hs)⟩) hne
  · refine targetName?_text ?_
    rw [hname, testNameOf_names hleaf]
    exact Path.notMem_intercalate (by decide) fun s hs => hline s (List.mem_append_left _ hs)
  · refine targetName?_text ?_
    rw [hname', testNameOf_names hleaf']
    exact Path.notMem_intercalate (by decide) fun s hs => hline s (List.mem_append_right _ hs)

/-- A project with two source directories, one of them below the other. -/
def nestedDisk : Disk :=
  ⟨[(["w"], .directory), (["w", "src"], .directory), (["w", "src", "a"], .directory),
    (["w", "src", "a", "b"], .directory)]⟩

/-- The two lists of that project, the second on the disk with the first, name different
targets. -/
theorem nested_targets_differ : ∃ d' t t',
    ((writeLeaf .usual ⟨false, ["tests", "ut", "a"]⟩ ⟨false, ["src", "a"]⟩).run nestedDisk).disk = d' ∧
    d'.readAt (Project.usual.absolute ⟨false, ["tests", "ut", "a", "CMakeLists.txt"]⟩) =
      .ok (.text t) ∧
    ((writeLeaf .usual ⟨false, ["tests", "ut", "a", "b"]⟩ ⟨false, ["src", "a", "b"]⟩).run
      d').disk.readAt (Project.usual.absolute ⟨false, ["tests", "ut", "a", "b", "CMakeLists.txt"]⟩) =
        .ok (.text t') ∧
    targetName? t ≠ targetName? t' := by
  have hrun : ((writeLeaf .usual ⟨false, ["tests", "ut", "a"]⟩ ⟨false, ["src", "a"]⟩).run
      nestedDisk).value = .ok () := Job.ok_of_isOk (by decide +kernel)
  have hrun' : ((writeLeaf .usual ⟨false, ["tests", "ut", "a", "b"]⟩ ⟨false, ["src", "a", "b"]⟩).run
      ((writeLeaf .usual ⟨false, ["tests", "ut", "a"]⟩ ⟨false, ["src", "a"]⟩).run
        nestedDisk).disk).value = .ok () := Job.ok_of_isOk (by decide +kernel)
  obtain ⟨b, b', hread, hread', _, hdiffer, hshown⟩ := targets_equal_iff
    (L := ["tests", "ut", "a"]) (M := ["tests", "ut", "a", "b"]) (by rfl) (by rfl) (by decide)
    (by decide) (by rfl) (by rfl) hrun hrun'
  obtain ⟨ht, ht'⟩ := hshown (by decide)
  refine ⟨_, _, _, rfl, hread, hread', ?_⟩
  rw [ht, ht']
  exact fun h => hdiffer (by decide) (by decide) (Option.some.inj h)

/-- A directory with an underscore in its name, and two directories one in the other. -/
def underscored : Disk :=
  ⟨[(["w"], .directory), (["w", "src"], .directory), (["w", "src", "a_b"], .directory),
    (["w", "src", "a"], .directory), (["w", "src", "a", "b"], .directory)]⟩

/-- The name of the target that the list at a location sets. -/
def targetAt? (d : Disk) (L : List String) : Option String :=
  match d.find? L with
  | some (.file (.text t)) => targetName? t
  | _ => none

/-- What is read at a path is the list at its location. -/
theorem targetAt?_eq {p : Path} {F : Location} {b : BuildList} (hF : d.locate true p = .ok F)
    (h : d.readAt p = .ok (.text b.text)) (hline : '\n' ∉ b.testName.toList) :
    targetAt? d F = some b.testName := by
  obtain ⟨l, hl, hfile⟩ := Disk.readAt_eq_ok_iff.mp h
  obtain rfl := Except.ok.inj (hF.symm.trans hl)
  unfold targetAt?
  rw [hfile]
  exact targetName?_text hline

/-- Their targets have one name. -/
theorem directories_share_target :
    let first := (writeLeaf .usual ⟨false, ["tests", "ut", "a_b"]⟩ ⟨false, ["src", "a_b"]⟩).run
      underscored
    let second := (writeLeaf .usual ⟨false, ["tests", "ut", "a", "b"]⟩ ⟨false, ["src", "a", "b"]⟩).run
      first.disk
    first.value.isOk = true ∧ second.value.isOk = true ∧
      targetAt? second.disk ["w", "tests", "ut", "a_b", "CMakeLists.txt"] = some "tests_ut_a_b" ∧
      targetAt? second.disk ["w", "tests", "ut", "a", "b", "CMakeLists.txt"] =
        some "tests_ut_a_b" := by
  intro first second
  have hfirst : first.value.isOk = true := by decide +kernel
  have hsecond : second.value.isOk = true := by decide +kernel
  refine ⟨hfirst, hsecond, ?_, ?_⟩
  · -- the second list leaves the first one as it is
    have hkept : second.disk.find? ["w", "tests", "ut", "a_b", "CMakeLists.txt"] =
        first.disk.find? ["w", "tests", "ut", "a_b", "CMakeLists.txt"] := by decide +kernel
    obtain ⟨b, hread, hname⟩ := writeLeaf_names ⟨false, ["src", "a_b"]⟩ (by rfl)
      (Job.ok_of_isOk hfirst)
    have hnamed : b.testName = "tests_ut_a_b" := hname.trans (by decide)
    calc targetAt? second.disk ["w", "tests", "ut", "a_b", "CMakeLists.txt"]
        = targetAt? first.disk ["w", "tests", "ut", "a_b", "CMakeLists.txt"] := by
          unfold targetAt?
          rw [hkept]
      _ = some b.testName :=
          targetAt?_eq (by decide +kernel) hread (by rw [hnamed]; decide)
      _ = some "tests_ut_a_b" := congrArg some hnamed
  · obtain ⟨b, hread, hname⟩ := writeLeaf_names ⟨false, ["src", "a", "b"]⟩ (by rfl)
      (Job.ok_of_isOk hsecond)
    have hnamed : b.testName = "tests_ut_a_b" := hname.trans (by decide)
    rw [← hnamed]
    exact targetAt?_eq (by decide +kernel) hread (by rw [hnamed]; decide)

end BuildTree

end Scaffold
