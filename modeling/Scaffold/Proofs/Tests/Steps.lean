import Scaffold.Proofs.BuildTree.Printed
import Scaffold.Proofs.Job.Passing
import Scaffold.Proofs.Tests.Generation

/-!
# The steps of a call

All that generating tests writes, it writes in steps of three kinds: the test of a
header, a declaration, the list of a test directory.

* `Step` -- a step, with the names it is about, and `Step.job` the job that takes
  it;
* `Did`, `Took` -- **what a step does to a disk**, as a list of cases;
* `Step.ends` -- on a site, the job of a step does this and keeps the site;
* `Step.goes` -- until then it makes directories at most;
* `Ran` -- steps one after the other, and `each_ran`.
-/
namespace Scaffold

namespace Tests

open Artifact (BuildList)
open BuildTree (Declares)

/-! ## 1. Steps -/

/-- A step of a call. Directories are given by their names below the root of the
tests, or below the source directory. -/
inductive Step where
  /-- Generates the test of a header in a directory. -/
  | test (N : List String) (n : String)
  /-- Declares a child in the list of a directory. -/
  | declare (K : List String) (c : String)
  /-- Writes the list of a directory. -/
  | relist (N : List String)
  deriving DecidableEq, Repr

/-- The file name of the test of a header with the given name. -/
def testFile (n : String) : String := "ut_" ++ (Path.cutName n).1 ++ ".cpp"

/-- The file that a step writes, from the root of the tests. -/
def Step.place : Step → List String
  | .test N n => N ++ [testFile n]
  | .declare K _ => K ++ [BuildList.fileName]
  | .relist N => N ++ [BuildList.fileName]

/-- The names that a step is about are as wanted. -/
def Step.Fits (Q : String → Prop) : Step → Prop
  | .test N n => (∀ t ∈ N, Q t) ∧ Q n
  | .declare K c => (∀ t ∈ K, Q t) ∧ Q c
  | .relist N => ∀ t ∈ N, Q t

/-- What the step does. -/
def Step.job (P : Project) (overwrite : Bool) : Step → Job Unit
  | .test N n => generateOne P overwrite ⟨false, P.sourcesAt N ++ [n]⟩
  | .declare K c => BuildTree.declare P ⟨false, testsAt K⟩ c
  | .relist N => BuildTree.writeLeaf P ⟨false, testsAt N⟩ ⟨false, P.sourcesAt N⟩

/-- The file that a step writes, as a path of the project. -/
def Step.file (s : Step) : Path := ⟨false, testsAt s.place⟩

/-- The text of the test of a header with the given content. -/
def testText (P : Project) (N : List String) (n : String) (c : Content) : String :=
  Artifact.UnitTest.text (Cpp.describe n c.lenient)
    (P.includeSpelling ⟨false, P.sourcesAt N ++ [n]⟩)

/-- What a step that is not excluded does. -/
inductive Did (P : Project) (R : Location) (overwrite : Bool) : Step → Disk → Disk → Prop
  /-- There is something already, which is kept. -/
  | kept {N : List String} {n : String} {d : Disk} (ho : overwrite = false)
      (h : (d.find? (R ++ testsAt (N ++ [testFile n]))).isSome) :
      Did P R overwrite (.test N n) d d
  /-- The test is written, from what the header holds. -/
  | wrote {N : List String} {n : String} {d d' : Disk} {c : Content} {old : Option Content}
      (hc : d.find? (R ++ (P.sourcesAt N ++ [n])) = some (.file c))
      (ho : overwrite = true ∨ old = none)
      (hf : Filed R (testsAt (N ++ [testFile n])) old (.text (testText P N n c)) d d') :
      Did P R overwrite (.test N n) d d'
  /-- The list of the directory declares the child. -/
  | declared {K : List String} {c : String} {d d' : Disk} {old : Option String} {new : String}
      (h : Declares c old new)
      (hf : Filed R (testsAt (K ++ [BuildList.fileName])) (old.map .text) (.text new) d d') :
      Did P R overwrite (.declare K c) d d'
  /-- The list is written and keeps the subdirectories of the old one. -/
  | relisted {N : List String} {d d' : Disk} {old : Option String}
      (hsub : (listFor P d N).subdirectories =
        (old.map BuildList.declaredSubdirectories).getD [])
      (hf : Filed R (testsAt (N ++ [BuildList.fileName])) (old.map .text)
        (.text (listFor P d N).text) d d') :
      Did P R overwrite (.relist N) d d'

/-- What a step does: nothing if its file is excluded. -/
def Took (P : Project) (R : Location) (overwrite : Bool) (s : Step) (d d' : Disk) : Prop :=
  (P.excludes s.file = true ∧ d' = d) ∨ (P.excludes s.file = false ∧ Did P R overwrite s d d')

variable {P : Project} {Q : String → Prop} {R : Location} {d d' : Disk} {overwrite : Bool}
  {N K : List String} {n c : String} {s : Step} {ss : List Step}

/-! ## 2. Names -/

theorem testFile_ne_fileName (n : String) : testFile n ≠ BuildList.fileName :=
  testFile_ne (by decide)

theorem testFile_eq_iff {m n : String} : testFile m = testFile n ↔
    (Path.cutName m).1 = (Path.cutName n).1 := by
  unfold testFile
  constructor
  · intro h
    have h := congrArg String.toList h
    rw [String.toList_append, String.toList_append, String.toList_append, String.toList_append] at h
    exact String.toList_inj.mp (List.append_cancel_left (List.append_cancel_right h))
  · exact fun h => by rw [h]

theorem testsAt_child (hN : ∀ t ∈ testsAt N, Path.IsName t) (f : String) :
    (⟨false, testsAt N⟩ : Path).child f = ⟨false, testsAt (N ++ [f])⟩ := by
  rw [Path.Neat.child (p := ⟨false, testsAt N⟩) fun t ht => (hN t ht).not_idle, testsAt_concat]

theorem names_concat {L : List String} (hL : ∀ t ∈ L, Path.IsName t) (hn : Path.IsName n) :
    ∀ t ∈ L ++ [n], Path.IsName t := by
  intro t ht
  rcases List.mem_append.mp ht with ht | ht
  · exact hL t ht
  · exact List.mem_singleton.mp ht ▸ hn

/-- The test directory of a header and the name of its test. -/
theorem test_place (hL : ∀ t ∈ P.sourcesAt N, Path.IsName t) (hn : Path.IsName n) :
    testDirOf P ⟨false, P.sourcesAt N ++ [n]⟩ = .ok ⟨false, testsAt N⟩ ∧
      (⟨false, P.sourcesAt N ++ [n]⟩ : Path).fileName? = some n ∧
      testName ⟨false, P.sourcesAt N ++ [n]⟩ = testFile n := by
  have hneat : (⟨false, P.sourcesAt N⟩ : Path).Neat := fun t ht => (hL t ht).not_idle
  have hchild : (⟨false, P.sourcesAt N ++ [n]⟩ : Path).Neat :=
    fun t ht => (names_concat hL hn t ht).not_idle
  have hname : (⟨false, P.sourcesAt N ++ [n]⟩ : Path).fileName? = some n :=
    hchild.fileName? hn.2.2
  refine ⟨?_, hname, ?_⟩
  · have hrelocate : relocate ⟨false, P.sourcesAt N⟩ P.config.sourceDir testsDir =
        .ok ⟨false, testsAt N⟩ :=
      Path.relocate_names (hL _ List.mem_cons_self) Path.tests_neat
        fun t ht => hL t (List.mem_cons_of_mem _ ht)
    rw [← hrelocate, ← testDirOf_child P hneat hn.not_idle, hneat.child]
  · unfold testName Path.fileStem?
    rw [hname]
    rfl

theorem Step.Fits.place (hQ : Naming Q) (h : s.Fits Q) : ∀ t ∈ s.place, Q t := by
  intro t ht
  cases s with
  | test N n =>
    rcases List.mem_append.mp ht with ht | ht
    · exact h.1 t ht
    · exact List.mem_singleton.mp ht ▸ hQ.test h.2
  | declare K c =>
    rcases List.mem_append.mp ht with ht | ht
    · exact h.1 t ht
    · exact List.mem_singleton.mp ht ▸ hQ.list
  | relist N =>
    rcases List.mem_append.mp ht with ht | ht
    · exact h t ht
    · exact List.mem_singleton.mp ht ▸ hQ.list

/-! ## 3. The test of a header -/

/-- What a header holds decides its description. -/
theorem describeHeader_reads (file : Path) (d : Disk) :
    (describeHeader file).Ends
      (fun h d' => d' = d ∧ ∃ c, d.readAt file = .ok c ∧
        h = Cpp.describe (file.fileName?.getD "") c.lenient)
      (fun _ _ => True) d := by
  unfold describeHeader
  rw [Job.ends_seq, Job.ends_read]
  split
  · rename_i c hc
    exact ⟨rfl, c, hc, rfl⟩
  · trivial

/-- What generating a test comes to where the test directory is known. -/
theorem generateOne_eq {header T : Path} (hT : testDirOf P header = .ok T) :
    generateOne P overwrite header =
      if P.excludes (T.child (testName header)) then
        Job.report (T.child (testName header)) .skippedExcluded none
      else Job.exists (P.absolute (T.child (testName header))) >>= fun there =>
        if (there && !overwrite) = true then
          Job.report (T.child (testName header)) .skippedExists none
        else describeHeader (P.absolute header) >>= fun h =>
          writeArtifact .unitTest (P.absolute (T.child (testName header)))
            (.header h (P.includeSpelling header)) >>= fun _ =>
          Job.report (T.child (testName header)) .written none := by
  unfold generateOne
  rw [show relocate (header.parent?.getD Path.empty) P.config.sourceDir testsDir = .ok T from hT]
  rfl

/-- A test that is not excluded is kept, or written from what its header holds. -/
theorem generateOne_writes (header : Path) {T : Path} (hT : testDirOf P header = .ok T)
    (hex : P.excludes (T.child (testName header)) = false) (d : Disk) :
    (generateOne P overwrite header).Ends
      (fun _ d' =>
        (d' = d ∧ overwrite = false ∧
          (d.kindAt true (P.absolute (T.child (testName header)))).isSome) ∨
        ∃ c d₁, d.readAt (P.absolute header) = .ok c ∧
          (overwrite = true ∨ d.kindAt true (P.absolute (T.child (testName header))) = none) ∧
          d.Prepared (P.absolute (T.child (testName header))) d₁ ∧
          d₁.changeAt (P.absolute (T.child (testName header))) (fun _ => .text
            (Artifact.UnitTest.text
              (Cpp.describe ((P.absolute header).fileName?.getD "") c.lenient)
              (P.includeSpelling header))) = .ok d')
      (fun _ _ => True) d := by
  rw [generateOne_eq hT, if_neg (by simp [hex]), Job.ends_seq, Job.ends_exists]
  split
  · rename_i hthere
    rw [Bool.and_eq_true, Bool.not_eq_true'] at hthere
    exact .inl ⟨rfl, hthere.2, hthere.1⟩
  · rename_i hnew
    rw [Job.ends_seq]
    refine (describeHeader_reads _ d).mono (fun h d₀ h₀ => ?_) fun _ _ _ => trivial
    obtain ⟨rfl, c, hc, rfl⟩ := h₀
    rw [Job.ends_seq]
    refine (writeArtifact_ends .unitTest _ _ d₀).mono (fun _ d₂ hw => ?_) fun _ _ _ => trivial
    obtain ⟨t, d₁, ht, hd₁, hd₂⟩ := hw
    cases ht
    refine .inr ⟨c, d₁, hc, ?_, hd₁, hd₂⟩
    cases overwrite with
    | true => exact .inl rfl
    | false => exact .inr (by simpa using hnew)

/-! ## 4. Taking a step -/

/-- What is written is written at the location with these names. -/
theorem filed_of_wrote {L : List String} {name : String} {content : Option Content → Content}
    {G : Location} (h : Site P Q R d) (hg : d.Grows d') (hL : ∀ t ∈ L, Path.IsName t)
    (hname : Path.IsName name)
    (hw : d.Wrote P.root.rooted (Path.openEnd P.root.segments) L name content d' G) :
    Filed R (L ++ [name]) (d.readAt (P.absolute ⟨false, L ++ [name]⟩)).toOption
      (content (d.readAt (P.absolute ⟨false, L ++ [name]⟩)).toOption) d d' := by
  have hlocated := hw.located
  have hholds := hw.holds
  have hbefore := hw.before
  rw [← Disk.absolute_in] at hlocated hholds hbefore
  exact h.filed hg hL hname hlocated hbefore hholds (hw.others_located hL)

theorem filed_of_relisted {L : List String} {old : Option String} {new : String} {G : Location}
    (h : Site P Q R d) (hg : d.Grows d') (hL : ∀ t ∈ L, Path.IsName t)
    (hr : BuildTree.Relisted P L d d' G old new) :
    Filed R (L ++ [BuildList.fileName]) (old.map .text) (.text new) d d' := by
  refine h.filed hg hL BuildTree.fileName_isName hr.located ?_ hr.after hr.others
  rw [hr.before, Option.map_map]
  rfl

/-- A step that is excluded does nothing. -/
theorem Step.ends_excluded (hL : ∀ t ∈ testsAt s.place, Path.IsName t)
    (hS : ∀ N n, s = .test N n → ∀ t ∈ P.sourcesAt N ++ [n], Path.IsName t)
    (hex : P.excludes s.file = true) :
    (s.job P overwrite).Ends (fun _ d' => d' = d) (fun _ _ => True) d := by
  have hN : ∀ {N : List String} {f : String}, (∀ t ∈ testsAt (N ++ [f]), Path.IsName t) →
      (⟨false, testsAt N⟩ : Path).child f = ⟨false, testsAt (N ++ [f])⟩ := by
    intro N f h
    refine testsAt_child (fun t ht => h t ?_) f
    rw [testsAt_concat]
    exact List.mem_append_left _ ht
  cases s with
  | test N n =>
    have hnames := hS N n rfl
    obtain ⟨hT, _, hname⟩ := test_place (N := N) (n := n)
      (fun t ht => hnames t (List.mem_append_left _ ht)) (hnames n (by simp))
    change (generateOne P overwrite _).Ends _ _ d
    have hfile : (⟨false, testsAt N⟩ : Path).child
        (testName ⟨false, P.sourcesAt N ++ [n]⟩) = (Step.test N n).file := by
      rw [hname]
      exact hN hL
    rw [generateOne_eq hT, hfile, if_pos hex]
    rfl
  | declare K c =>
    change (BuildTree.declare P _ c).Ends _ _ d
    unfold BuildTree.declare
    dsimp only
    rw [show _ = (Step.declare K c).file from hN hL, if_pos hex]
    rfl
  | relist N =>
    change (BuildTree.writeLeaf P _ _).Ends _ _ d
    unfold BuildTree.writeLeaf
    dsimp only
    rw [show _ = (Step.relist N).file from hN hL, if_pos hex]
    rfl

/-- A step that is not excluded does what it is said to do. -/
theorem Step.ends_did (hQ : Naming Q) (hP : P.Sited Q) (h : Site P Q R d) (hs : s.Fits Q)
    (hex : P.excludes s.file = false) :
    (s.job P overwrite).Ends (fun _ d' => Did P R overwrite s d d') (fun _ _ => True) d := by
  cases s with
  | test N n =>
    have hL := names_testsAt hQ hs.1
    have hsources := names_sourcesAt hQ hP hs.1
    have hn := hQ.isName hs.2
    have htest : Path.IsName (testFile n) := hQ.isName (hQ.test hs.2)
    obtain ⟨hT, hfile, hname⟩ := test_place hsources hn
    have habsolute : (P.absolute ⟨false, P.sourcesAt N ++ [n]⟩).fileName? = some n := by
      rw [Disk.absolute_in]
      exact Path.fileName?_concat hn
    have hplace : (⟨false, testsAt N⟩ : Path).child
        (testName ⟨false, P.sourcesAt N ++ [n]⟩) = ⟨false, testsAt (N ++ [testFile n])⟩ := by
      rw [hname, testsAt_child hL]
    have hconcat : testsAt (N ++ [testFile n]) = testsAt N ++ [testFile n] := by
      simp [testsAt]
    have hkind := h.kindAt (L := testsAt (N ++ [testFile n]))
      (hconcat ▸ names_concat hL htest) (by simp [testsAt])
    refine ((generateOne_writes _ hT (by rw [hplace]; exact hex) d).grown).mono
      (fun _ d' h' => ?_) fun _ _ _ => trivial
    rw [hplace, hkind] at h'
    obtain ⟨⟨rfl, ho, hthere⟩ | ⟨c, d₁, hc, ho, hd₁, hwrite⟩, hg⟩ := h'
    · exact .kept ho (by simpa using hthere)
    · rw [h.readAt (names_concat hsources hn) (by simp)] at hc
      rw [hconcat] at hd₁ hwrite ho
      obtain ⟨G, hw⟩ := hd₁.wrote h.grounded h.placed hL htest hwrite
      have hf := filed_of_wrote h hg hL htest hw
      rw [habsolute, ← hconcat] at hf
      refine .wrote hc (ho.imp_right fun hnone => ?_) hf
      have hbefore := hf.before
      rw [hconcat, Option.map_eq_none_iff.mp hnone] at hbefore
      exact Option.map_eq_none_iff.mp hbefore.symm
  | declare K c =>
    have hL := names_testsAt hQ hs.1
    refine ((BuildTree.declare_relisted h.grounded h.placed hL).grown).mono (fun _ d' h' => ?_)
      fun _ _ _ => trivial
    obtain ⟨hdone, hg⟩ := h'
    have hconcat : testsAt (K ++ [BuildList.fileName]) = testsAt K ++ [BuildList.fileName] := by
      simp [testsAt]
    rw [← hconcat] at hdone
    rcases hdone with ⟨hex', _⟩ | ⟨G, old, new, hr, hdecl⟩
    · exact absurd (hex'.symm.trans hex) (by simp)
    · have hf := filed_of_relisted h hg hL hr
      rw [← hconcat] at hf
      exact .declared hdecl hf
  | relist N =>
    have hL := names_testsAt hQ hs
    refine ((BuildTree.writeLeaf_relisted P ⟨false, P.sourcesAt N⟩ h.grounded h.placed
      hL).grown).mono (fun _ d' h' => ?_) fun _ _ _ => trivial
    obtain ⟨hdone, hg⟩ := h'
    have hconcat : testsAt (N ++ [BuildList.fileName]) = testsAt N ++ [BuildList.fileName] := by
      simp [testsAt]
    rw [← hconcat] at hdone
    rcases hdone with ⟨hex', _⟩ | ⟨G, old, hr, hsub⟩
    · exact absurd (hex'.symm.trans hex) (by simp)
    · have hf := filed_of_relisted h hg hL hr
      rw [← hconcat] at hf
      exact .relisted hsub hf

/-- A step that does not keep what is there writes its file. -/
theorem Did.filed (h : Did P R overwrite s d d') :
    d' = d ∨ ∃ old new, Filed R (testsAt s.place) old new d d' := by
  cases h with
  | kept _ _ => exact .inl rfl
  | wrote _ _ hf => exact .inr ⟨_, _, hf⟩
  | declared _ hf => exact .inr ⟨_, _, hf⟩
  | relisted _ hf => exact .inr ⟨_, _, hf⟩

/-- **A step does what it is said to do, and keeps the site.** -/
theorem Step.ends (hQ : Naming Q) (hP : P.Sited Q) (h : Site P Q R d) (hs : s.Fits Q) :
    (s.job P overwrite).Ends (fun _ d' => Took P R overwrite s d d' ∧ Site P Q R d')
      (fun _ _ => True) d := by
  have hkeeps := ((Job.ends_keeps (I := Disk.Distinct) (fun _ q hd => Disk.answer_distinct hd q)
    (s.job P overwrite) d h.distinct).kept h.grounded)
  cases hex : P.excludes s.file with
  | true =>
    have hL : ∀ t ∈ testsAt s.place, Path.IsName t := names_testsAt hQ (hs.place hQ)
    refine (Step.ends_excluded hL ?_ hex).mono (fun _ d' hd' => ?_) fun _ _ _ => trivial
    · rintro N n rfl
      exact names_concat (names_sourcesAt hQ hP hs.1) (hQ.isName hs.2)
    · subst hd'
      exact ⟨.inl ⟨hex, rfl⟩, h⟩
  | false =>
    refine ((Step.ends_did hQ hP h hs hex).and hkeeps).mono (fun _ d' h' => ?_)
      fun _ _ _ => trivial
    obtain ⟨hdid, hdistinct, hgrounded, hg⟩ := h'
    refine ⟨.inr ⟨hex, hdid⟩, ?_⟩
    rcases hdid.filed with rfl | ⟨old, new, hf⟩
    · exact h
    · exact h.after_filed hP hgrounded hdistinct hg (hs.place hQ) hf

/-! ## 5. On the way of a step -/

theorem describeHeader_isReads (file : Path) : (describeHeader file).Reads :=
  (Job.reads_read file).seq fun _ => Job.reads_pure _

theorem filesAmong_reads (directory : Path) : ∀ names : List String,
    (BuildTree.filesAmong directory names).Reads
  | [] => Job.reads_pure _
  | name :: names => by
      unfold BuildTree.filesAmong
      exact (Job.reads_isFile _).seq fun _ => (filesAmong_reads directory names).seq fun _ =>
        Job.reads_pure _

theorem filesIn_reads (directory : Path) (wanted : String → Bool)
    (entries : List (String × EntryKind)) : (BuildTree.filesIn directory wanted entries).Reads :=
  (filesAmong_reads directory _).seq fun _ => Job.reads_pure _

theorem compiledFiles_reads (P : Project) (directory : Path) :
    (BuildTree.compiledFiles P directory).Reads := by
  unfold BuildTree.compiledFiles
  refine Job.reads_ask trivial fun r => ?_
  split
  · exact filesIn_reads _ _ _
  · exact Job.reads_pure _
  · exact Job.reads_fail _

theorem includeDirs_reads (P : Project) : (BuildTree.includeDirs P).Reads := by
  unfold BuildTree.includeDirs
  refine (Job.reads_isDirectory _).seq fun there => ?_
  split <;> exact Job.reads_pure _

theorem declaredAt_reads (file : Path) : (BuildTree.declaredAt file).Reads := by
  unfold BuildTree.declaredAt
  refine (Job.reads_tryText file).seq fun r => ?_
  split
  · exact Job.reads_pure _
  · exact Job.reads_pure _
  · exact Job.reads_fail _

theorem writeArtifact_writesLast (artifact : Artifact) (target : Path)
    (parameters : Artifact.Parameters) :
    (writeArtifact artifact target parameters).WritesLast := by
  unfold writeArtifact
  refine (Job.reads_ofExcept _).then_writes fun t => ?_
  dsimp only
  split
  · split
    · exact Job.writesLast_write _ _
    · exact .after (fun _ => Job.writesLast_write _ _) (Job.asks_makeDirs trivial)
  · exact Job.writesLast_write _ _

theorem says_writeArtifact {say : Record → Prop} (artifact : Artifact) (target : Path)
    (parameters : Artifact.Parameters) : (writeArtifact artifact target parameters).Says say := by
  have hwrite : ∀ t, (Job.write target t).Says say := fun t r => Job.says_accept _ r
  unfold writeArtifact
  refine (Job.says_ofExcept _).seq fun t => ?_
  dsimp only
  split
  · split
    · exact hwrite t
    · exact Job.Says.seq (fun r => Job.says_accept _ r) fun _ => hwrite t
  · exact hwrite t

theorem Step.writesLast (P : Project) (overwrite : Bool) (s : Step) :
    (s.job P overwrite).WritesLast := by
  cases s with
  | test N n =>
    change (generateOne P overwrite _).WritesLast
    unfold generateOne
    refine (Job.reads_ofExcept _).then_writes fun T => ?_
    dsimp only
    split
    · trivial
    · refine (Job.reads_exists _).then_writes fun there => ?_
      split
      · trivial
      · exact (describeHeader_isReads _).then_writes fun h =>
          .before (fun _ => Job.finishes_report _ _ _) (writeArtifact_writesLast _ _ _)
  | declare K c =>
    change (BuildTree.declare P _ c).WritesLast
    unfold BuildTree.declare
    dsimp only
    split
    · trivial
    · refine (Job.reads_tryText _).then_writes fun r => ?_
      split
      · split
        · trivial
        · exact .before (fun _ => Job.finishes_report _ _ _) (Job.writesLast_append _ _)
      · exact .after
          (fun _ => .before (fun _ => Job.finishes_report _ _ _) (Job.writesLast_write _ _))
          (Job.asks_makeDirs trivial)
      · trivial
  | relist N =>
    change (BuildTree.writeLeaf P _ _).WritesLast
    unfold BuildTree.writeLeaf
    dsimp only
    split
    · trivial
    · refine (compiledFiles_reads P _).then_writes fun _ => ?_
      refine (compiledFiles_reads P _).then_writes fun _ => ?_
      exact (includeDirs_reads P).then_writes fun _ => (declaredAt_reads _).then_writes fun _ =>
        .before (fun _ => Job.finishes_report _ _ _) (writeArtifact_writesLast _ _ _)

/-- Until a step is done, it makes directories at most. -/
theorem Step.goes {mid : Disk → Prop} {say : Record → Prop} (hQ : Naming Q) (hP : P.Sited Q)
    (h : Site P Q R d) (hs : s.Fits Q) (hsay : (s.job P overwrite).Says say)
    (hmid : ∀ x, d.Extends x → x.Grounded ∧ x.Distinct → mid x)
    (hdone : ∀ d', Took P R overwrite s d d' → Site P Q R d' → mid d') :
    (s.job P overwrite).Goes mid say
      (fun _ d' => Took P R overwrite s d d' ∧ Site P Q R d') d := by
  refine (s.writesLast P overwrite).goes hmid hsay (.refl d) ⟨h.grounded, h.distinct⟩ ?_
  exact (Step.ends hQ hP h hs).mono (fun _ d' h' => ⟨hdone d' h'.1 h'.2, h'⟩) fun _ _ _ => trivial

/-! ## 6. Steps one after the other -/

/-- What steps come to, one after the other, on sites. -/
inductive Ran (P : Project) (Q : String → Prop) (R : Location) (overwrite : Bool) :
    List Step → Disk → Disk → Prop
  | nil (d : Disk) : Ran P Q R overwrite [] d d
  | cons {s : Step} {ss : List Step} {d d₁ d' : Disk} (h : Took P R overwrite s d d₁)
      (hsite : Site P Q R d₁) (hrest : Ran P Q R overwrite ss d₁ d') :
      Ran P Q R overwrite (s :: ss) d d'

theorem ran_append {ss ss' : List Step} : Ran P Q R overwrite (ss ++ ss') d d' ↔
    ∃ d₁, Ran P Q R overwrite ss d d₁ ∧ Ran P Q R overwrite ss' d₁ d' := by
  induction ss generalizing d with
  | nil => exact ⟨fun h => ⟨d, .nil d, h⟩, fun ⟨_, h, h'⟩ => by cases h; exact h'⟩
  | cons s ss ih =>
    constructor
    · rintro (_ | ⟨h, hsite, hrest⟩)
      obtain ⟨d₁, h₁, h₂⟩ := ih.mp hrest
      exact ⟨d₁, .cons h hsite h₁, h₂⟩
    · rintro ⟨d₁, _ | ⟨h, hsite, h₁⟩, h₂⟩
      exact .cons h hsite (ih.mpr ⟨d₁, h₁, h₂⟩)

/-- **The jobs of steps do what the steps do.** -/
theorem each_ran (hQ : Naming Q) (hP : P.Sited Q) (h : Site P Q R d)
    (hss : ∀ s ∈ ss, s.Fits Q) : (Job.each (Step.job P overwrite) ss).Ends
      (fun _ d' => Ran P Q R overwrite ss d d') (fun _ _ => True) d := by
  induction ss generalizing d with
  | nil => exact .nil d
  | cons s ss ih =>
    unfold Job.each
    rw [Job.ends_bind]
    refine (Step.ends hQ hP h (hss s List.mem_cons_self)).mono (fun _ d₁ h₁ => ?_)
      fun _ _ _ => trivial
    exact (ih h₁.2 fun s' hs' => hss s' (List.mem_cons_of_mem s hs')).mono
      (fun _ d' h' => .cons h₁.1 h₁.2 h') fun _ _ _ => trivial

/-- What holds at first and is kept by each step holds at the end. -/
theorem Ran.keeps {I : Disk → Prop} (h : Ran P Q R overwrite ss d d') (hd : I d)
    (hstep : ∀ s ∈ ss, ∀ d d', I d → Took P R overwrite s d d' → Site P Q R d' → I d') :
    I d' := by
  induction h with
  | nil => exact hd
  | cons h hsite _ ih =>
    exact ih (hstep _ List.mem_cons_self _ _ hd h hsite)
      fun s hs => hstep s (List.mem_cons_of_mem _ hs)

/-- What each step brings about and no later step undoes is there at the end. -/
theorem Ran.settled {I : Disk → Prop} {D : Step → Disk → Prop} {B : Step → Step → Prop}
    (h : Ran P Q R overwrite ss d d') (hd : I d) (horder : ss.Pairwise B)
    (hstep : ∀ s ∈ ss, ∀ d d', I d → Took P R overwrite s d d' → Site P Q R d' → I d')
    (hdone : ∀ s ∈ ss, ∀ d d', I d → Took P R overwrite s d d' → Site P Q R d' → D s d')
    (hkeep : ∀ s ∈ ss, ∀ s' ∈ ss, B s s' → ∀ d d', I d → D s d →
      Took P R overwrite s' d d' → Site P Q R d' → D s d') : ∀ s ∈ ss, D s d' := by
  induction h with
  | nil => exact fun s hs => absurd hs List.not_mem_nil
  | @cons s ss d d₁ d' h hsite hrest ih =>
    obtain ⟨hfirst, horder⟩ := List.pairwise_cons.mp horder
    have hmem : ∀ s' ∈ ss, s' ∈ s :: ss := fun s' hs' => List.mem_cons_of_mem s hs'
    have hI := hstep s List.mem_cons_self d d₁ hd h hsite
    intro s' hs'
    rcases List.mem_cons.mp hs' with rfl | hs'
    · -- the first step is done, and the rest keeps it
      refine (hrest.keeps (I := fun x => I x ∧ D s' x)
        ⟨hI, hdone s' List.mem_cons_self d d₁ hd h hsite⟩ fun s hs x x' hx hx' hsite' => ?_).2
      exact ⟨hstep s (hmem s hs) x x' hx.1 hx' hsite', hkeep s' List.mem_cons_self s (hmem s hs)
        (hfirst s hs) x x' hx.1 hx.2 hx' hsite'⟩
    · exact ih hI horder (fun s hs => hstep s (hmem s hs)) (fun s hs => hdone s (hmem s hs))
        (fun s hs s'' hs'' => hkeep s (hmem s hs) s'' (hmem s'' hs'')) s' hs'

theorem Ran.site (h : Ran P Q R overwrite ss d d') (hd : Site P Q R d) : Site P Q R d' :=
  h.keeps hd fun _ _ _ _ _ _ h => h

/-- A step does nothing, or it writes its file. -/
theorem Took.filed (h : Took P R overwrite s d d') :
    d' = d ∨ (P.excludes s.file = false ∧ ∃ old new, Filed R (testsAt s.place) old new d d') := by
  rcases h with ⟨_, rfl⟩ | ⟨hex, hdid⟩
  · exact .inl rfl
  · exact hdid.filed.imp_right fun h => ⟨hex, h⟩

theorem Took.apart (h : Took P R overwrite s d d') : Apart R d d' := by
  rcases h.filed with rfl | ⟨_, _, _, hf⟩
  · exact .refl R _
  · exact hf.apart

theorem Took.grows (h : Took P R overwrite s d d') : d.Grows d' := by
  rcases h.filed with rfl | ⟨_, _, _, hf⟩
  · exact .refl _
  · exact hf.grows

theorem Ran.apart (h : Ran P Q R overwrite ss d d') : Apart R d d' :=
  h.keeps (.refl R d) fun _ _ _ _ h₁ h₂ _ => h₁.trans h₂.apart

theorem Ran.grows (h : Ran P Q R overwrite ss d d') : d.Grows d' :=
  h.keeps (.refl d) fun _ _ _ _ h₁ h₂ _ => h₁.trans h₂.grows

end Tests

end Scaffold
