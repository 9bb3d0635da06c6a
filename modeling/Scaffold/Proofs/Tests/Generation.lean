import Scaffold.Proofs.BuildTree.Plans

/-!
# What generating tests does to a disk

* `generateOne_ends` -- the test of a header is kept, or it is written with the
  directories above it;
* `generateOne_there` -- **afterwards there is a test**, unless it is excluded;
* `refresh_ends` -- the last thing that is written is the build list, planned on
  a disk that has all the tests;
* `generate_directory`, `generate_header` -- all of this for the headers of a
  directory and for a single one.
-/
namespace Scaffold

theorem describeHeader_ends (file : Path) (d : Disk) :
    (describeHeader file).Ends (fun _ d' => d' = d)
      (fun e d' => e.isUserError = false ∧ d' = d) d := by
  unfold describeHeader
  rw [Job.ends_seq, Job.ends_read]
  split
  · rfl
  · exact ⟨rfl, rfl⟩

namespace Tests

open Artifact (BuildList)

/-! ## 1. The test of a header -/

/-- The file name of the test of a header. -/
def testName (header : Path) : String := "ut_" ++ header.fileStem?.getD "" ++ ".cpp"

/-- The test directory of a header. -/
def testDirOf (P : Project) (header : Path) : Except Failure Path :=
  relocate (header.parent?.getD Path.empty) P.config.sourceDir testsDir

/-- The test of a header, if it is not excluded, is kept where there is one
already, or written. A mistake of the user leaves the disk as it is. -/
theorem generateOne_ends (P : Project) (overwrite : Bool) (header : Path) (d : Disk) :
    (generateOne P overwrite header).Ends
      (fun _ d' => ∃ T, testDirOf P header = .ok T ∧
        ((d' = d ∧ (P.excludes (T.child (testName header)) = true ∨ overwrite = false ∧
            (d.kindAt true (P.absolute (T.child (testName header)))).isSome)) ∨
          ∃ h d₁, d.Prepared (P.absolute (T.child (testName header))) d₁ ∧
            d₁.changeAt (P.absolute (T.child (testName header)))
              (fun _ => .text (Artifact.UnitTest.text h (P.includeSpelling header))) = .ok d'))
      (fun e d' => e.isUserError = true → d' = d) d := by
  unfold generateOne
  rw [Job.ends_seq, Job.ends_ofExcept]
  split
  · rename_i T hT
    dsimp only
    split
    · rename_i hex
      exact ⟨T, hT, .inl ⟨rfl, .inl hex⟩⟩
    · rw [Job.ends_seq, Job.ends_exists]
      split
      · rename_i hthere
        rw [Bool.and_eq_true, Bool.not_eq_true'] at hthere
        exact ⟨T, hT, .inl ⟨rfl, .inr ⟨hthere.2, hthere.1⟩⟩⟩
      · rw [Job.ends_seq]
        refine (describeHeader_ends _ d).mono (fun h d' hd' => ?_) fun _ _ h _ => h.2
        subst hd'
        rw [Job.ends_seq]
        refine (writeArtifact_ends .unitTest _ _ d').mono (fun _ d₂ hw => ?_) fun e _ he hu => ?_
        · obtain ⟨t, d₁, ht, hd₁, hd₂⟩ := hw
          cases ht
          exact ⟨T, hT, .inr ⟨h, d₁, hd₁, hd₂⟩⟩
        · rw [he.1] at hu
          cases hu
  · exact fun _ => rfl

/-- **After the test of a header was generated it is there**, unless it is
excluded. -/
theorem generateOne_there (P : Project) (overwrite : Bool) (header : Path) (d : Disk)
    {T : Path} (hT : testDirOf P header = .ok T)
    (hex : P.excludes (T.child (testName header)) = false) :
    (generateOne P overwrite header).Ends
      (fun _ d' => (d'.kindAt true (P.absolute (T.child (testName header)))).isSome)
      (fun _ _ => True) d := by
  refine (generateOne_ends P overwrite header d).mono (fun _ d' h => ?_) fun _ _ _ => trivial
  obtain ⟨T', hT', h⟩ := h
  have : T' = T := by
    rw [hT] at hT'
    cases hT'
    rfl
  subst this
  rcases h with ⟨rfl, h | h⟩ | ⟨h, d₁, _, hd'⟩
  · rw [hex] at h
    cases h
  · exact h.2
  · rw [kindAt_of_readAt (Disk.readAt_changeAt hd')]
    rfl

/-! ## 2. The build list -/

/-- What is written last is the build list, unless it is excluded. -/
theorem refresh_ends (P : Project) (sourceDir : Path) (d : Disk) {T : Path}
    (hT : relocate sourceDir P.config.sourceDir testsDir = .ok T)
    (hex : P.excludes (T.child BuildList.fileName) = false) :
    (refresh P sourceDir).Ends
      (fun _ d' => ∃ d₁ d₂, d.Grows d₁ ∧ d₁.Extends d₂ ∧
        d₂.changeAt (P.absolute (T.child BuildList.fileName))
          (fun _ => .text (BuildTree.planned P d₁ T sourceDir).text) = .ok d')
      (fun _ _ => True) d := by
  unfold refresh
  rw [Job.ends_seq, Job.ends_ofExcept, hT]
  dsimp only
  rw [Job.ends_seq]
  refine (Job.ends_grows _ d).mono (fun _ d₁ hd₁ => ?_) fun _ _ _ => trivial
  refine (BuildTree.writeLeaf_ends P T sourceDir).mono (fun _ d' h => ?_) fun _ _ _ => trivial
  rcases h with ⟨h, _⟩ | ⟨_, d₂, hd₂, hd'⟩
  · rw [hex] at h
    cases h
  · exact ⟨d₁, d₂, hd₁, hd₂.extends, hd'⟩

/-! ## 3. Headers of a directory -/

/-- The headers right inside a directory, as a disk has them. -/
def headersAt (P : Project) (d : Disk) (directory : Path) : List String :=
  BuildTree.filesAt P d directory fun name => P.isHeader (directory.child name)

theorem headersIn_ends (P : Project) (directory : Path) (d : Disk) :
    (headersIn P directory).Ends
      (fun hs d' => d' = d ∧ hs = (headersAt P d directory).map directory.child)
      (fun e d' => e.isUserError = false ∧ d' = d) d := by
  unfold headersIn
  rw [Job.ends_seq, Job.ends_list]
  split
  · rename_i entries hl
    rw [Job.ends_seq]
    refine (BuildTree.filesIn_ends _ _ entries).mono (fun names d' h => ?_) fun _ _ h => h
    obtain ⟨rfl, rfl⟩ := h
    unfold headersAt BuildTree.filesAt
    rw [hl]
    exact ⟨rfl, rfl⟩
  · exact ⟨rfl, rfl⟩

theorem testDirOf_child (P : Project) {directory : Path} (h : directory.Neat) {n : String}
    (hn : Path.idle n = false) :
    testDirOf P (directory.child n) = relocate directory P.config.sourceDir testsDir := by
  unfold testDirOf
  rw [h.child, Path.Neat.parent? (Path.Neat.mk_append h hn)]
  rfl

/-- A loop that generates tests ends with all of them there. -/
theorem generateAll_ends (P : Project) (overwrite : Bool) {directory T : Path}
    (h : directory.Neat) (hT : relocate directory P.config.sourceDir testsDir = .ok T)
    {names : List String} (hnames : ∀ n ∈ names, Path.idle n = false)
    (hex : ∀ n ∈ names, P.excludes (T.child (testName (directory.child n))) = false) (d : Disk) :
    (Job.each (generateOne P overwrite) (names.map directory.child)).Ends
      (fun _ d' => d.Grows d' ∧ ∀ n ∈ names,
        (d'.kindAt true (P.absolute (T.child (testName (directory.child n))))).isSome)
      (fun _ _ => True) d := by
  have hthere : (Job.each (generateOne P overwrite) (names.map directory.child)).Ends
      (fun _ (d' : Disk) => ∀ header ∈ names.map directory.child,
        (d'.kindAt true (P.absolute (T.child (testName header)))).isSome)
      (fun _ _ => True) d := by
    refine Job.Ends.each_all (fun header d₁ d₂ h₁ hg => ?_) fun header hmem d' => ?_
    · obtain ⟨k, hk⟩ := Option.isSome_iff_exists.mp h₁
      rw [Disk.kindAt_grows hg hk]
      rfl
    · obtain ⟨n, hn, rfl⟩ := List.mem_map.mp hmem
      refine generateOne_there P overwrite _ d' ?_ (hex n hn)
      rw [testDirOf_child P h (hnames n hn)]
      exact hT
  refine (hthere.and (Job.ends_grows _ d)).mono (fun _ d' h' => ⟨h'.2, fun n hn => ?_⟩)
    fun _ _ _ => trivial
  exact h'.1 _ (List.mem_map_of_mem hn)

theorem generateIn_ends (P : Project) (overwrite : Bool) {directory T : Path} {d : Disk}
    (h : directory.Neat) (hT : relocate directory P.config.sourceDir testsDir = .ok T)
    (hnames : ∀ n ∈ headersAt P d directory, Path.idle n = false)
    (hlist : P.excludes (T.child BuildList.fileName) = false)
    (hex : ∀ n ∈ headersAt P d directory,
      P.excludes (T.child (testName (directory.child n))) = false)
    (hne : headersAt P d directory ≠ []) :
    (generateIn P overwrite directory).Ends
      (fun _ d' => ∃ d₁ d₂ : Disk, (∀ n ∈ headersAt P d directory,
          (d₁.kindAt true (P.absolute (T.child (testName (directory.child n))))).isSome) ∧
        d₁.Extends d₂ ∧ d₂.changeAt (P.absolute (T.child BuildList.fileName))
          (fun _ => .text (BuildTree.planned P d₁ T directory).text) = .ok d')
      (fun _ _ => True) d := by
  unfold generateIn
  rw [Job.ends_seq]
  refine (headersIn_ends P directory d).mono (fun hs d₀ h₀ => ?_) fun _ _ _ => trivial
  obtain ⟨rfl, rfl⟩ := h₀
  rw [if_neg (by simpa using hne), Job.ends_seq]
  refine (generateAll_ends P overwrite h hT hnames hex d₀).mono (fun _ d₁ h₁ => ?_)
    fun _ _ _ => trivial
  refine (refresh_ends P directory d₁ hT hlist).mono (fun _ d' h₂ => ?_) fun _ _ _ => trivial
  obtain ⟨d₂, d₃, hg, hd₃, hd'⟩ := h₂
  refine ⟨d₂, d₃, fun n hn => ?_, hd₃, hd'⟩
  obtain ⟨k, hk⟩ := Option.isSome_iff_exists.mp (h₁.2 n hn)
  rw [Disk.kindAt_grows hg hk]
  rfl

/-- Without a test directory nothing is generated. -/
theorem generateIn_outside (P : Project) (overwrite : Bool) {directory : Path} {d : Disk}
    {e : Failure} (hT : relocate directory P.config.sourceDir testsDir = .error e)
    (hne : headersAt P d directory ≠ []) :
    (generateIn P overwrite directory).Ends (fun _ _ => False) (fun _ _ => True) d := by
  unfold generateIn
  rw [Job.ends_seq]
  refine (headersIn_ends P directory d).mono (fun hs d₀ h₀ => ?_) fun _ _ _ => trivial
  obtain ⟨rfl, rfl⟩ := h₀
  rw [if_neg (by simpa using hne), Job.ends_seq]
  refine (Job.ends_grows _ d₀).mono (fun _ d₁ _ => ?_) fun _ _ _ => trivial
  unfold refresh
  rw [Job.ends_seq, Job.ends_ofExcept, hT]
  trivial

/-! ## 4. Calls -/

variable {P : Project} {overwrite : Bool} {input rel : Path} {d : Disk}
  {good : Unit → Disk → Prop} {bad : Failure → Disk → Prop}

/-- Finding the path of the project that is meant comes first. -/
theorem ends_relative {f : Path → Job Unit}
    (hrel : ((P.relative input).run d).value = .ok rel) (h : (f rel).Ends good bad d) :
    (P.relative input >>= f).Ends good bad d := by
  rw [Job.ends_seq]
  refine ((Job.ends_of_run hrel).and (Path.relative_neat P input d)).mono (fun q d' h' => ?_)
    fun _ _ h' => h'.1.elim
  obtain ⟨⟨rfl, _⟩, _, rfl⟩ := h'
  exact h

theorem relative_isNeat (hrel : ((P.relative input).run d).value = .ok rel) : rel.Neat :=
  ((Path.relative_neat P input d).of_run_ok hrel).1

theorem generate_directory (hrel : ((P.relative input).run d).value = .ok rel)
    (hdir : d.kindAt true (P.absolute rel) = some .directory)
    (h : (generateIn P overwrite rel).Ends good bad d) :
    (generate P overwrite input).Ends good bad d := by
  refine ends_relative hrel ?_
  rw [Job.ends_seq, Job.ends_kind, hdir]
  exact h

theorem generate_header (hrel : ((P.relative input).run d).value = .ok rel)
    (hfile : d.kindAt true (P.absolute rel) = some .file) (hh : P.isHeader rel = true)
    (h : (generateOne P overwrite rel).Ends
      (fun _ d₁ => (refresh P (rel.parent?.getD Path.empty)).Ends good bad d₁) bad d) :
    (generate P overwrite input).Ends good bad d := by
  refine ends_relative hrel ?_
  rw [Job.ends_seq, Job.ends_kind, hfile]
  dsimp only
  rw [if_pos hh, Job.ends_seq]
  exact h

/-- A file whose tests could be generated is a header. -/
theorem generate_isHeader (hrel : ((P.relative input).run d).value = .ok rel)
    (hfile : d.kindAt true (P.absolute rel) = some .file)
    (hok : ((generate P overwrite input).run d).value = .ok ()) : P.isHeader rel = true := by
  by_cases hh : P.isHeader rel = true
  · exact hh
  · have hfails : (generate P overwrite input).Ends (fun _ _ => False) (fun _ _ => True) d := by
      refine ends_relative hrel ?_
      rw [Job.ends_seq, Job.ends_kind, hfile]
      dsimp only
      rw [if_neg hh]
      trivial
    exact (hfails.of_run_ok hok).elim

/-- A header whose test could be generated has a test directory. -/
theorem generate_testDirOf (hrel : ((P.relative input).run d).value = .ok rel)
    (hfile : d.kindAt true (P.absolute rel) = some .file)
    (hok : ((generate P overwrite input).run d).value = .ok ()) : ∃ T, testDirOf P rel = .ok T := by
  cases hT : testDirOf P rel with
  | ok T => exact ⟨T, rfl⟩
  | error e =>
    have hfails : (generateOne P overwrite rel).Ends (fun _ d₁ =>
        (refresh P (rel.parent?.getD Path.empty)).Ends (fun _ _ => False) (fun _ _ => True) d₁)
        (fun _ _ => True) d := by
      refine (generateOne_ends P overwrite rel d).mono (fun _ d₁ h => ?_) fun _ _ _ => trivial
      obtain ⟨T, hT', _⟩ := h
      rw [hT] at hT'
      cases hT'
    have hh := generate_isHeader hrel hfile hok
    exact ((generate_header hrel hfile hh hfails).of_run_ok hok).elim

end Tests

end Scaffold
