import Scaffold.Proofs.BuildList.Reading
import Scaffold.Proofs.Path.Pieces
import Scaffold.Proofs.Tests.Generation

/-!
# Which tests a build list builds

The name of a test ends in `.cpp` whatever the settings are, and a build list
enumerates the files with one of the configured extensions.

* `isSource_testName` -- a test is a compiled source just in case `cpp` is a
  configured extension;
* `enumerated_iff_cpp` -- **a generated test is built just in case it is one**.
-/
namespace Scaffold.Tests

open Artifact (BuildList)

/-! ## 1. The extension of a test -/

/-- A name is cut in front of its extension. -/
theorem cutName_testName (header : Path) :
    Path.cutName (testName header) = ("ut_" ++ header.fileStem?.getD "", some "cpp") :=
  Path.cutName_cpp (by simp)

theorem head?_testName (header : Path) : (testName header).toList.head? = some 'u' := by
  unfold testName
  rw [String.toList_append, String.toList_append]
  rfl

theorem testName_isName (header : Path) : Path.IsName (testName header) := by
  have hhead := head?_testName header
  refine ⟨fun hempty => ?_, ?_, ?_⟩
  · rw [hempty] at hhead
    cases hhead
  · exact BuildList.ne_of_head? hhead (z := '.') rfl (by decide)
  · exact BuildList.ne_of_head? hhead (z := '.') rfl (by decide)

/-- A test is a compiled source just in case `cpp` is a configured extension. -/
theorem isSource_testName (P : Project) {T : Path} (h : T.Neat) (header : Path) :
    P.isSource (T.child (testName header)) = P.config.sourceExtensions.contains "cpp" := by
  have hname := testName_isName header
  unfold Project.isSource Path.hasExtension Path.extension?
  rw [h.child, Path.Neat.fileName? (Path.Neat.mk_append h hname.not_idle) hname.2.2,
    Option.bind_some, cutName_testName]

/-! ## 2. The block of the executable -/

theorem mem_files {b : BuildList} {name : String} (h : name.toList.head? ≠ some '$') :
    "    " ++ name ∈ b.files ↔ name ∈ b.unitTests := by
  unfold BuildList.files
  rw [List.mem_append, List.mem_map, List.mem_map]
  constructor
  · rintro (⟨f, hf, hname⟩ | ⟨p, _, hname⟩)
    · have : f = name := by
        have := congrArg String.toList hname
        rw [String.toList_append, String.toList_append] at this
        exact String.toList_inj.mp (List.append_cancel_left this)
      exact this ▸ hf
    · refine absurd ?_ h
      have hsplit : "    $\x7bCMAKE_SOURCE_DIR\x7d/".toList =
          "    ".toList ++ "$\x7bCMAKE_SOURCE_DIR\x7d/".toList := by decide
      have := congrArg String.toList hname
      unfold BuildList.fromRoot at this
      rw [String.toList_append, String.toList_append, hsplit, List.append_assoc] at this
      rw [← List.append_cancel_left this]
      rfl
  · exact fun hf => .inl ⟨name, hf, rfl⟩

variable {P : Project} {overwrite : Bool} {input rel : Path} {d : Disk}

/-- **The tests of a directory are built just in case `cpp` is a configured
extension.** After the tests of a directory with headers were generated, its
test directory has a build list, and for each of its headers the list builds the
file of its test if and only if `cpp` is one of the extensions of compiled
sources and the test is a file. -/
theorem enumerated_iff_cpp (hnamed : d.Named)
    (hrel : ((P.relative input).run d).value = .ok rel)
    (hdir : d.kindAt true (P.absolute rel) = some .directory)
    (hheaders : headersAt P d rel ≠ [])
    (hok : ((generate P overwrite input).run d).value = .ok ())
    (hex : ∀ T, relocate rel P.config.sourceDir testsDir = .ok T →
      P.excludes (T.child BuildList.fileName) = false ∧
        ∀ n ∈ headersAt P d rel, P.excludes (T.child (testName (rel.child n))) = false) :
    ∃ (T : Path) (b : BuildList), relocate rel P.config.sourceDir testsDir = .ok T ∧
      ((generate P overwrite input).run d).disk.readAt
        (P.absolute (T.child BuildList.fileName)) = .ok (.text b.text) ∧
      ∀ n ∈ headersAt P d rel,
        (testName (rel.child n) ∈ b.unitTests ↔ "cpp" ∈ P.config.sourceExtensions ∧
          ((generate P overwrite input).run d).disk.kindAt true
            (P.absolute (T.child (testName (rel.child n)))) = some .file) ∧
        (b.OneLine → ("    " ++ testName (rel.child n) ∈ BuildList.enumerated b.text ↔
          testName (rel.child n) ∈ b.unitTests)) := by
  have hneat := relative_isNeat hrel
  cases hT : relocate rel P.config.sourceDir testsDir with
  | error e =>
    exact ((generate_directory hrel hdir (generateIn_outside P overwrite hT hheaders)).of_run_ok
      hok).elim
  | ok T =>
    obtain ⟨hlist, htests⟩ := hex T hT
    have hnames : ∀ n ∈ headersAt P d rel, Path.idle n = false :=
      fun n hn => (BuildTree.filesAt_isName P hnamed hn).not_idle
    have hends := (generate_directory hrel hdir (generateIn_ends P overwrite hneat hT hnames hlist
      htests hheaders)).of_run_ok hok
    obtain ⟨d₁, d₂, hthere, hd₂, hd'⟩ := hends
    refine ⟨T, BuildTree.planned P d₁ T rel, rfl, Disk.readAt_changeAt hd', fun n hn => ?_⟩
    have hgrows := hd₂.grows.trans (Disk.changeAt_grows hd')
    obtain ⟨hTneat, hTne⟩ := Path.testDir_neat hneat hT
    -- the test stays what it was when the list was planned
    have hkind : ((generate P overwrite input).run d).disk.kindAt true
          (P.absolute (T.child (testName (rel.child n)))) = some .file ↔
        d₁.kindAt true (P.absolute (T.child (testName (rel.child n)))) = some .file := by
      obtain ⟨k, hk⟩ := Option.isSome_iff_exists.mp (hthere n hn)
      rw [Disk.kindAt_grows hgrows hk, hk]
    have hmem : testName (rel.child n) ∈ (BuildTree.planned P d₁ T rel).unitTests ↔
        "cpp" ∈ P.config.sourceExtensions ∧
          d₁.kindAt true (P.absolute (T.child (testName (rel.child n)))) = some .file := by
      change testName (rel.child n) ∈ BuildTree.filesAt P d₁ T _ ↔ _
      rw [BuildTree.mem_filesAt P hTneat hTne (testName_isName _), isSource_testName P hTneat,
        List.contains_iff_mem]
    refine ⟨hmem.trans (and_congr_right fun _ => hkind.symm), fun hline => ?_⟩
    rw [BuildList.enumerated_text hline, mem_files (by rw [head?_testName]; decide)]

/-- A project whose compiled sources end in `.cc`. -/
def ccProject : Project := ⟨⟨true, ["w"]⟩, { sourceExtensions := ["cc"] }, fun _ => false⟩

/-- A disk with a single header in the source directory. -/
def oneHeader : Disk :=
  ⟨[(["w"], .directory), (["w", "src"], .directory),
    (["w", "src", "foo.h"], .file (.text "class Foo {};\n"))]⟩

/-- Where `.cc` is the only extension, a test is generated and not built. -/
theorem cc_test_not_enumerated : ∃ (T : Path) (b : BuildList),
    ((generate ccProject false ⟨false, ["src"]⟩).run oneHeader).disk.readAt
      (ccProject.absolute (T.child BuildList.fileName)) = .ok (.text b.text) ∧
    "ut_foo.cpp" ∉ b.unitTests := by
  have hrel : ((ccProject.relative ⟨false, ["src"]⟩).run oneHeader).value =
      .ok ⟨false, ["src"]⟩ := by
    have hnames : ccProject.relative ⟨false, ["src"]⟩ = pure ⟨false, ["src"]⟩ :=
      Path.relative_names ccProject (by decide) rfl (by decide)
    rw [hnames]
    rfl
  have hdir : oneHeader.kindAt true (ccProject.absolute ⟨false, ["src"]⟩) = some .directory := by
    decide +kernel
  have hok : ((generate ccProject false ⟨false, ["src"]⟩).run oneHeader).value = .ok () :=
    Job.ok_of_isOk (by decide +kernel)
  obtain ⟨T, b, _, hread, hall⟩ := enumerated_iff_cpp (by decide +kernel) hrel hdir
    (by decide +kernel) hok fun _ _ => ⟨rfl, fun _ _ => rfl⟩
  refine ⟨T, b, hread, fun hmem => ?_⟩
  have := ((hall "foo.h" (by decide +kernel)).1.mp hmem).1
  exact absurd this (by decide)

end Scaffold.Tests
