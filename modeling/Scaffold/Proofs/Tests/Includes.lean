import Scaffold.Proofs.BuildList.Reading
import Scaffold.Proofs.BuildTree.Requests
import Scaffold.Proofs.Path.Pieces
import Scaffold.Proofs.Tests.Enumeration

/-!
# What the include of a generated test finds

A test includes its header by the path from the source directory, or from the
include directory inside that, and its build list names both directories.

* `firstFile` -- what an include of a name finds: the first file of that name in
  the include directories of a build list;
* `generateHeader_ends` -- what there is after the test of a header was generated;
* `include_finds_header_iff` -- **the include of a test finds its header, unless
  the source directory has a file where the header is in the include
  directory**.
-/
namespace Scaffold.Tests

open Artifact (BuildList)

/-! ## 1. Searching -/

/-- What a text leads to from the root of a project. -/
def fromRoot (P : Project) (text : String) : Path :=
  P.root.join ⟨false, Path.piecesFrom [] text.toList⟩

/-- The first file of a name in the include directories of a build list. -/
def firstFile (P : Project) (d : Disk) (b : BuildList) (name : String) : Option Path :=
  (b.includeDirs.map fun dir => fromRoot P (dir.spelled "/" ++ "/" ++ name)).find? fun p =>
    d.kindAt true p == some .file

theorem fromRoot_names (P : Project) {A B : List String} (hA : (⟨false, A⟩ : Path).Neat)
    (hne : A ≠ [] ∧ B ≠ []) (hslash : ∀ s ∈ A ++ B, '/' ∉ s.toList) :
    fromRoot P ((⟨false, A⟩ : Path).spelled "/" ++ "/" ++ "/".intercalate B) =
      P.absolute ⟨false, A ++ B⟩ := by
  have htext : (⟨false, A⟩ : Path).spelled "/" ++ "/" ++ "/".intercalate B =
      "/".intercalate (A ++ B) := by
    rw [Path.spelled_names hA, String.intercalate_append_of_ne_nil hne.1 hne.2]
  unfold fromRoot
  rw [htext, Path.pieces_intercalate (by simp [hne.1]) hslash]
  rfl

/-! ## 2. Spelling -/

section Spelling

variable (P : Project) {rest : List String}

theorem steps_behind (h : (⟨false, P.config.sourceDir :: rest⟩ : Path).Neat) :
    Project.behindFirst P.config.sourceDir
      ((⟨false, P.config.sourceDir :: rest⟩ : Path).components.map Path.Component.text) = rest := by
  rw [h.texts]
  unfold Project.behindFirst
  rw [List.dropWhile_cons_of_neg (by simp)]

/-- A header in the include directory is included from there. -/
theorem includeSpelling_inner {t : String}
    (h : (⟨false, P.config.sourceDir :: P.config.includeDir :: t :: rest⟩ : Path).Neat) :
    P.includeSpelling ⟨false, P.config.sourceDir :: P.config.includeDir :: t :: rest⟩ =
      "/".intercalate (t :: rest) := by
  unfold Project.includeSpelling
  rw [steps_behind P h]
  dsimp only
  rw [if_pos (by simp)]

/-- Any other header is included from the source directory. -/
theorem includeSpelling_outer (h : (⟨false, P.config.sourceDir :: rest⟩ : Path).Neat)
    (hrest : ∀ t more, rest ≠ P.config.includeDir :: t :: more) :
    P.includeSpelling ⟨false, P.config.sourceDir :: rest⟩ = "/".intercalate rest := by
  unfold Project.includeSpelling
  rw [steps_behind P h]
  dsimp only
  split
  · rename_i s t more
    have hs : s ≠ P.config.includeDir := by
      rintro rfl
      exact hrest t more rfl
    rw [if_neg (by simpa using hs)]
  · rfl

/-- The source directory is searched first. -/
theorem includeDirsAt_head (d : Disk) (hs : '/' ∉ P.config.sourceDir.toList) :
    ∃ dirs, BuildTree.includeDirsAt P d = ⟨false, [P.config.sourceDir]⟩ :: dirs := by
  unfold BuildTree.includeDirsAt
  rw [Path.ofText_of_notMem hs]
  dsimp only
  split
  · exact ⟨_, rfl⟩
  · exact ⟨_, rfl⟩

/-- The include directory, if there is one, is searched next. -/
theorem includeDirsAt_inner {d : Disk} (hs : '/' ∉ P.config.sourceDir.toList)
    (hi : '/' ∉ P.config.includeDir.toList) (hne : P.config.sourceDir ≠ "")
    (hdir : d.kindAt true (P.absolute ⟨false, [P.config.sourceDir, P.config.includeDir]⟩) =
      some .directory) :
    BuildTree.includeDirsAt P d =
      [⟨false, [P.config.sourceDir]⟩, ⟨false, [P.config.sourceDir, P.config.includeDir]⟩] := by
  have hjoin : (⟨false, [P.config.sourceDir]⟩ : Path).join ⟨false, [P.config.includeDir]⟩ =
      ⟨false, [P.config.sourceDir, P.config.includeDir]⟩ := by
    unfold Path.join Path.openEnd
    simp [hne]
  unfold BuildTree.includeDirsAt
  rw [Path.ofText_of_notMem hs, Path.ofText_of_notMem hi]
  dsimp only
  rw [hjoin, hdir, if_pos (by simp)]

end Spelling

/-! ## 3. Finding -/

/-- The source directory has a file where a header is in the include
directory. -/
def Shadowed (P : Project) (d : Disk) (rest : List String) : Prop :=
  ∃ t more, rest = P.config.includeDir :: t :: more ∧
    d.kindAt true (P.absolute ⟨false, P.config.sourceDir :: t :: more⟩) = some .file

variable {P : Project} {d d' : Disk} {rest : List String}

/-- What lies below something makes that a directory. -/
theorem kindAt_above {A B : List String} (hA : (⟨false, A⟩ : Path).Neat) (hAne : A ≠ [])
    (hB : B ≠ []) {k : EntryKind}
    (h : d.kindAt true (P.absolute ⟨false, A ++ B⟩) = some k) :
    d.kindAt true (P.absolute ⟨false, A⟩) = some .directory := by
  have happend : P.absolute ⟨false, A ++ B⟩ =
      ⟨(P.absolute ⟨false, A⟩).rooted, (P.absolute ⟨false, A⟩).segments ++ B⟩ := by
    change (⟨P.root.rooted, Path.openEnd P.root.segments ++ (A ++ B)⟩ : Path) =
      ⟨P.root.rooted, (Path.openEnd P.root.segments ++ A) ++ B⟩
    rw [List.append_assoc]
  rw [happend] at h
  exact Disk.kindAt_directory (Path.absolute_text P hA hAne) hB h

/-- The steps of a path of the source directory that names it alone. -/
theorem neat_source (h : (⟨false, P.config.sourceDir :: rest⟩ : Path).Neat) :
    (⟨false, [P.config.sourceDir]⟩ : Path).Neat := by
  intro s hs
  rw [List.mem_singleton.mp hs]
  exact h _ List.mem_cons_self

/-- A header in the include directory is found there, unless the source directory
has a file in its place. -/
theorem firstFile_inner_iff {b : BuildList} {t : String} {more : List String}
    (hdirs : b.includeDirs = BuildTree.includeDirsAt P d) (hg : d.Grows d')
    (h : (⟨false, P.config.sourceDir :: P.config.includeDir :: t :: more⟩ : Path).Neat)
    (hslash : ∀ s ∈ P.config.sourceDir :: P.config.includeDir :: t :: more, '/' ∉ s.toList)
    (hfile : d.kindAt true (P.absolute
      ⟨false, P.config.sourceDir :: P.config.includeDir :: t :: more⟩) = some .file) :
    firstFile P d' b (P.includeSpelling
        ⟨false, P.config.sourceDir :: P.config.includeDir :: t :: more⟩) =
      some (P.absolute ⟨false, P.config.sourceDir :: P.config.includeDir :: t :: more⟩) ↔
        ¬Shadowed P d' (P.config.includeDir :: t :: more) := by
  have hs : '/' ∉ P.config.sourceDir.toList := hslash _ List.mem_cons_self
  have hi : '/' ∉ P.config.includeDir.toList := hslash _ (by simp)
  have hboth : (⟨false, [P.config.sourceDir, P.config.includeDir]⟩ : Path).Neat := by
    intro s hs
    refine h s ?_
    simp only [List.mem_cons, List.not_mem_nil, or_false] at hs ⊢
    rcases hs with rfl | rfl
    · exact .inl rfl
    · exact .inr (.inl rfl)
  have hnot : '/' ∉ t.toList ∧ ∀ s ∈ more, '/' ∉ s.toList :=
    ⟨hslash t (by simp), fun s hs => hslash s (by simp [hs])⟩
  -- the include directory is there, since the header is in it
  have hdir : d.kindAt true (P.absolute ⟨false, [P.config.sourceDir, P.config.includeDir]⟩) =
      some .directory := kindAt_above hboth (by simp) (by simp) hfile
  have hfirst := fromRoot_names P (B := t :: more) (neat_source h) ⟨by simp, by simp⟩
    (by simpa using ⟨hs, hnot⟩)
  have hsecond := fromRoot_names P (B := t :: more) hboth ⟨by simp, by simp⟩
    (by simpa using ⟨hs, hi, hnot⟩)
  have hsne : P.config.sourceDir ≠ "" := by
    intro he
    simpa [he, Path.idle] using h _ List.mem_cons_self
  unfold firstFile
  rw [hdirs, includeDirsAt_inner P hs hi hsne hdir, includeSpelling_inner P h, List.map_cons,
    List.map_singleton, hfirst, hsecond]
  by_cases hshadow : d'.kindAt true (P.absolute ⟨false, P.config.sourceDir :: t :: more⟩) =
      some .file
  · have hlength : P.absolute ⟨false, [P.config.sourceDir] ++ t :: more⟩ ≠
        P.absolute ⟨false, P.config.sourceDir :: P.config.includeDir :: t :: more⟩ := by
      intro heq
      have := List.append_cancel_left (congrArg Path.segments heq)
      simpa using congrArg List.length this
    have hshadowed : Shadowed P d' (P.config.includeDir :: t :: more) := ⟨t, more, rfl, hshadow⟩
    rw [List.find?_cons_of_pos (by simpa using hshadow)]
    simp only [Option.some.injEq, hshadowed, not_true_eq_false, iff_false]
    exact hlength
  · have hnone : ¬Shadowed P d' (P.config.includeDir :: t :: more) := by
      rintro ⟨t', more', heq, hfile⟩
      simp only [List.cons.injEq, true_and] at heq
      obtain ⟨rfl, rfl⟩ := heq
      exact hshadow hfile
    rw [List.find?_cons_of_neg (by simpa using hshadow), List.find?_cons_of_pos]
    · simpa using hnone
    · simpa using Disk.kindAt_grows hg hfile

/-- Any other header is found in the source directory. -/
theorem firstFile_outer {b : BuildList} (hdirs : b.includeDirs = BuildTree.includeDirsAt P d)
    (hg : d.Grows d') (h : (⟨false, P.config.sourceDir :: rest⟩ : Path).Neat)
    (hslash : ∀ s ∈ P.config.sourceDir :: rest, '/' ∉ s.toList) (hne : rest ≠ [])
    (hother : ∀ t more, rest ≠ P.config.includeDir :: t :: more)
    (hfile : d.kindAt true (P.absolute ⟨false, P.config.sourceDir :: rest⟩) = some .file) :
    firstFile P d' b (P.includeSpelling ⟨false, P.config.sourceDir :: rest⟩) =
      some (P.absolute ⟨false, P.config.sourceDir :: rest⟩) := by
  obtain ⟨dirs, hhead⟩ := includeDirsAt_head P d (hslash _ List.mem_cons_self)
  have hfirst := fromRoot_names P (neat_source h) ⟨by simp, hne⟩ hslash
  unfold firstFile
  rw [hdirs, hhead, includeSpelling_outer P h hother, List.map_cons, hfirst,
    List.find?_cons_of_pos (by simp [Disk.kindAt_grows hg hfile])]
  rfl

/-- What is found in the include directories that a disk has. -/
theorem firstFile_iff {b : BuildList} (hdirs : b.includeDirs = BuildTree.includeDirsAt P d)
    (hg : d.Grows d') (h : (⟨false, P.config.sourceDir :: rest⟩ : Path).Neat)
    (hslash : ∀ s ∈ P.config.sourceDir :: rest, '/' ∉ s.toList) (hne : rest ≠ [])
    (hfile : d.kindAt true (P.absolute ⟨false, P.config.sourceDir :: rest⟩) = some .file) :
    firstFile P d' b (P.includeSpelling ⟨false, P.config.sourceDir :: rest⟩) =
        some (P.absolute ⟨false, P.config.sourceDir :: rest⟩) ↔ ¬Shadowed P d' rest := by
  by_cases hinner : ∃ t more, rest = P.config.includeDir :: t :: more
  · obtain ⟨t, more, rfl⟩ := hinner
    exact firstFile_inner_iff hdirs hg h hslash hfile
  · have hother : ∀ t more, rest ≠ P.config.includeDir :: t :: more :=
      fun t more heq => hinner ⟨t, more, heq⟩
    have hshadow : ¬Shadowed P d' rest := by
      rintro ⟨t, more, heq, _⟩
      exact hother t more heq
    simp only [firstFile_outer hdirs hg h hslash hne hother hfile, hshadow, not_false_eq_true]

/-! ## 4. Generating the test of a header -/

variable {overwrite : Bool} {input rel : Path}

/-- The list that is written last is planned on a disk on the way. -/
theorem refresh_planned {T : Path} {d₁ : Disk} (hT : testDirOf P rel = .ok T)
    (hex : ∀ p, P.excludes p = false) (hg₁ : d.Grows d₁) :
    (refresh P (rel.parent?.getD Path.empty)).Ends (fun _ d' =>
      ∃ d₂, d.Grows d₂ ∧ d₂.Grows d' ∧
        d'.readAt (P.absolute (T.child BuildList.fileName)) =
          .ok (.text (BuildTree.planned P d₂ T (rel.parent?.getD Path.empty)).text))
      (fun _ _ => True) d₁ := by
  refine (refresh_ends P _ d₁ hT (hex _)).mono (fun _ d' h' => ?_) fun _ _ _ => trivial
  obtain ⟨d₂, d₃, hg₂, hd₃, hd'⟩ := h'
  exact ⟨d₂, hg₁.trans hg₂, hd₃.grows.trans (Disk.changeAt_grows hd'), Disk.readAt_changeAt hd'⟩

/-- Without links, a test does not lie where a build list lies. -/
theorem last_ne_fileName {T : Path} {l : Location} (hd : d.Linkless)
    (hl : d.locate true (P.absolute (T.child (testName rel))) = .ok l) :
    l.getLast? ≠ some BuildList.fileName := by
  obtain ⟨S, hS⟩ := Path.absolute_child_segments P T (testName rel)
  rw [Disk.locate_eq_ok_iff, Disk.resolve_eq_ok_iff, hS] at hl
  obtain ⟨k, hk | hk⟩ := hl.2.last_name (testName_isName rel) hd
  · cases hk
  · cases hk
    rw [List.getLast?_concat]
    intro heq
    exact BuildList.ne_of_head? (head?_testName rel) (z := 'C') rfl (by decide)
      (Option.some.inj heq)

/-- After the test of a header was generated, its build list is the one that was
planned on the way, and a test that was written is there as it was written. -/
theorem generateHeader_ends {T : Path}
    (hT : testDirOf P rel = .ok T) (hex : ∀ p, P.excludes p = false) :
    (generateOne P overwrite rel).Ends (fun _ d₁ =>
      (refresh P (rel.parent?.getD Path.empty)).Ends (fun _ d' =>
        ∃ d₂, d.Grows d₂ ∧ d₂.Grows d' ∧
          d'.readAt (P.absolute (T.child BuildList.fileName)) =
            .ok (.text (BuildTree.planned P d₂ T (rel.parent?.getD Path.empty)).text) ∧
          (overwrite = true ∨ d.kindAt true (P.absolute (T.child (testName rel))) = none →
            d.Linkless → ∃ h, d'.readAt (P.absolute (T.child (testName rel))) =
              .ok (.text (Artifact.UnitTest.text h (P.includeSpelling rel)))))
        (fun _ _ => True) d₁)
      (fun _ _ => True) d := by
  have hrefresh := fun d₁ (hg₁ : d.Grows d₁) => refresh_planned hT hex hg₁
  have hlinks : (generateOne P overwrite rel).Ends (fun _ d₁ => d.Linkless → d₁.Linkless)
      (fun _ d₁ => d.Linkless → d₁.Linkless) d :=
    Job.ends_keeps (fun d₁ q h hd => Disk.answer_linkless (h hd) q) _ d id
  refine ((generateOne_ends P overwrite rel d).grown.and hlinks).mono (fun _ d₁ h₁ => ?_)
    fun _ _ _ => trivial
  obtain ⟨⟨⟨T', hT', hone⟩, hg₁⟩, hlink₁⟩ := h₁
  have : T' = T := by
    rw [hT] at hT'
    cases hT'
    rfl
  subst this
  rcases hone with ⟨rfl, hkept⟩ | ⟨h, d₀, _, hd₁⟩
  · -- a test that is kept was there before
    refine (hrefresh d₁ hg₁).mono (fun _ d' h' => ?_) fun _ _ _ => trivial
    obtain ⟨d₂, hd₂, hd', hread⟩ := h'
    refine ⟨d₂, hd₂, hd', hread, fun hwrites _ => ?_⟩
    rcases hkept with hkept | ⟨hover, hthere⟩
    · rw [hex] at hkept
      cases hkept
    · rcases hwrites with hwrites | hwrites
      · rw [hover] at hwrites
        cases hwrites
      · rw [hwrites] at hthere
        cases hthere
  · by_cases hlink : d.Linkless
    · obtain ⟨l, hl, hfile⟩ := Disk.readAt_eq_ok_iff.mp (Disk.readAt_changeAt hd₁)
      have hlast := last_ne_fileName (hlink₁ hlink) hl
      refine (((hrefresh d₁ hg₁).and (refresh_keeps P _ (hlink₁ hlink) hlast hfile)).grown).mono
        (fun _ d' h' => ?_) fun _ _ _ => trivial
      obtain ⟨⟨⟨d₂, hd₂, hd', hread⟩, hfile'⟩, hg⟩ := h'
      exact ⟨d₂, hd₂, hd', hread, fun _ _ =>
        ⟨h, Disk.readAt_eq_ok_iff.mpr ⟨l, Disk.locate_grows hg hl, hfile'⟩⟩⟩
    · refine (hrefresh d₁ hg₁).mono (fun _ d' h' => ?_) fun _ _ _ => trivial
      obtain ⟨d₂, hd₂, hd', hread⟩ := h'
      exact ⟨d₂, hd₂, hd', hread, fun _ hl => absurd hl hlink⟩

/-- **The include of a test finds its header**, unless the header is in the
include directory and the source directory has a file in its place. -/
theorem include_finds_header_iff
    (hrel : ((P.relative input).run d).value = .ok ⟨false, P.config.sourceDir :: rest⟩)
    (hslash : ∀ s ∈ P.config.sourceDir :: rest, '/' ∉ s.toList)
    (hfile : d.kindAt true (P.absolute ⟨false, P.config.sourceDir :: rest⟩) = some .file)
    (hok : ((generate P overwrite input).run d).value = .ok ())
    (hex : ∀ p, P.excludes p = false) :
    ∃ (T : Path) (b : BuildList),
      testDirOf P ⟨false, P.config.sourceDir :: rest⟩ = .ok T ∧
      ((generate P overwrite input).run d).disk.readAt
        (P.absolute (T.child BuildList.fileName)) = .ok (.text b.text) ∧
      (b.OneLine → BuildList.included b.text = b.includeDirs.map BuildList.fromRoot) ∧
      (overwrite = true ∨ d.kindAt true (P.absolute (T.child
          (testName ⟨false, P.config.sourceDir :: rest⟩))) = none → d.Linkless →
        ∃ h, ((generate P overwrite input).run d).disk.readAt (P.absolute (T.child
            (testName ⟨false, P.config.sourceDir :: rest⟩))) =
          .ok (.text (Artifact.UnitTest.text h
            (P.includeSpelling ⟨false, P.config.sourceDir :: rest⟩)))) ∧
      (firstFile P ((generate P overwrite input).run d).disk b
          (P.includeSpelling ⟨false, P.config.sourceDir :: rest⟩) =
        some (P.absolute ⟨false, P.config.sourceDir :: rest⟩) ↔
          ¬Shadowed P ((generate P overwrite input).run d).disk rest) := by
  have hneat := relative_isNeat hrel
  have hh := generate_isHeader hrel hfile hok
  obtain ⟨T, hT⟩ := generate_testDirOf hrel hfile hok
  have hne : rest ≠ [] := by
    rintro rfl
    have hparent : (⟨false, [P.config.sourceDir]⟩ : Path).parent? = some ⟨false, []⟩ :=
      Path.Neat.parent? (L := []) hneat
    unfold testDirOf at hT
    rw [hparent] at hT
    obtain ⟨A, B, hsegments, _⟩ := Path.Neat.relocate (p := ⟨false, []⟩) (by simp [Path.Neat])
      (fun s hs => (Path.tests_neat s hs).not_idle) hT
    simp at hsegments
  obtain ⟨d₂, hd₂, hd', hread, hwritten⟩ :=
    (generate_header hrel hfile hh (generateHeader_ends hT hex)).of_run_ok hok
  refine ⟨T, _, hT, hread, fun hline => ?_, hwritten, ?_⟩
  · refine BuildList.included_text hline ?_
    obtain ⟨dirs, hdirs⟩ := includeDirsAt_head P d₂ (hslash _ List.mem_cons_self)
    change BuildTree.includeDirsAt P d₂ ≠ []
    rw [hdirs]
    exact List.cons_ne_nil _ _
  · exact firstFile_iff rfl hd' hneat hslash hne (Disk.kindAt_grows hd₂ hfile)

/-- A disk with two headers of one name, one of them in the include directory. -/
def twoHeaders : Disk :=
  ⟨[(["w"], .directory), (["w", "src"], .directory), (["w", "src", "include"], .directory),
    (["w", "src", "foo.h"], .file (.text "class Outer {};\n")),
    (["w", "src", "include", "foo.h"], .file (.text "class Inner {};\n"))]⟩

/-- The test of the header in the source directory finds it. -/
theorem outer_include_finds_header : ∃ (T : Path) (b : BuildList),
    ((generate Project.usual false ⟨false, ["src", "foo.h"]⟩).run twoHeaders).disk.readAt
      (Project.usual.absolute (T.child BuildList.fileName)) = .ok (.text b.text) ∧
    firstFile Project.usual
        ((generate Project.usual false ⟨false, ["src", "foo.h"]⟩).run twoHeaders).disk b
        (Project.usual.includeSpelling ⟨false, ["src", "foo.h"]⟩) =
      some (Project.usual.absolute ⟨false, ["src", "foo.h"]⟩) := by
  have hrel : ((Project.usual.relative ⟨false, ["src", "foo.h"]⟩).run twoHeaders).value =
      .ok ⟨false, Project.usual.config.sourceDir :: ["foo.h"]⟩ := by
    have hnames : Project.usual.relative ⟨false, ["src", "foo.h"]⟩ = pure ⟨false, ["src", "foo.h"]⟩ :=
      Path.relative_names Project.usual (by decide) rfl (by decide)
    rw [hnames]
    rfl
  have hok : ((generate Project.usual false ⟨false, ["src", "foo.h"]⟩).run twoHeaders).value =
      .ok () := Job.ok_of_isOk (by decide +kernel)
  obtain ⟨T, b, _, hread, _, _, hfound⟩ := include_finds_header_iff hrel (by decide)
    (by decide +kernel) hok fun _ => rfl
  refine ⟨T, b, hread, hfound.mpr ?_⟩
  rintro ⟨t, more, heq, _⟩
  simp at heq

/-- The build list of the header in the include directory. -/
def innerList : BuildList where
  testName := "tests_ut_include"
  unitTests := ["ut_foo.cpp"]
  sources := []
  includeDirs := [⟨false, ["src"]⟩, ⟨false, ["src", "include"]⟩]
  subdirectories := []

/-- The test of the header in the include directory is generated, and its
include finds the other header. -/
theorem inner_include_finds_other :
    ((generate Project.usual false ⟨false, ["src", "include", "foo.h"]⟩).run
        twoHeaders).value.isOk = true ∧
      (((generate Project.usual false ⟨false, ["src", "include", "foo.h"]⟩).run
        twoHeaders).disk.readAt ⟨true, ["w", "tests", "ut", "include", "CMakeLists.txt"]⟩).toOption =
          some (.text innerList.text) ∧
      firstFile Project.usual
          ((generate Project.usual false ⟨false, ["src", "include", "foo.h"]⟩).run twoHeaders).disk
          innerList (Project.usual.includeSpelling ⟨false, ["src", "include", "foo.h"]⟩) =
        some ⟨true, ["w", "src", "foo.h"]⟩ ∧
      Project.usual.absolute ⟨false, ["src", "include", "foo.h"]⟩ ≠ ⟨true, ["w", "src", "foo.h"]⟩ := by
  refine ⟨?_, ?_, ?_, ?_⟩
  · decide +kernel
  · decide +kernel
  · decide +kernel
  · decide +kernel

end Scaffold.Tests
