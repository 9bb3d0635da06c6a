import Scaffold.Proofs.BuildTree.Sites

/-!
# What lists print

The list of a test directory prints the names of the directory, of files in it and
beside it, and of the include directories.

* `Site.notMem_printed` -- a character of no name is not printed;
* `notMem_includeDirs` -- an include directory is printed only if it is there, so
  that its names are those of directories;
* `Project.IncludesApart` -- whether it is there does not hang on the tests;
  `includesApart_of_names`: **so it is for names below the source directory**.
-/
namespace Scaffold

open BuildTree

variable {P : Project} {Q : String → Prop} {R : Location} {d : Disk} {N : List String} {z : Char}

/-- The list of a test directory as a disk has what it is made of. -/
def listFor (P : Project) (d : Disk) (N : List String) : Artifact.BuildList :=
  planned P d ⟨false, testsAt N⟩ ⟨false, P.sourcesAt N⟩

/-- **A character of no name is not printed**, unless it separates names. -/
theorem Site.notMem_printed (h : Site P Q R d) (hQ : Naming Q) (hP : P.Sited Q)
    (hz : z ≠ '/' ∧ z ≠ '.' ∧ z ≠ '_') (hQz : ∀ s, Q s → z ∉ s.toList) (hN : ∀ t ∈ N, Q t)
    (htests : ∀ t ∈ ["tests", "ut"], z ∉ t.toList)
    (hdirs : ∀ p ∈ includeDirsAt P d, ∀ t ∈ p.segments, z ∉ t.toList) :
    ∀ s ∈ (listFor P d N).printed, z ∉ s.toList := by
  have htestNames := names_testsAt hQ hN
  have hsourceNames := names_sourcesAt hQ hP hN
  refine BuildTree.notMem_printed hz (fun t ht => (hsourceNames t ht).not_idle) (fun t ht => ?_)
    (fun t ht => ?_) (fun f hf => ?_) (fun f hf => ?_) hdirs
  · rcases List.mem_append.mp ht with ht | ht
    · exact htests t ht
    · exact hQz t (hN t ht)
  · rcases List.mem_cons.mp ht with rfl | ht
    · exact hQz _ hP.sourceDir
    · exact hQz t (hN t ht)
  · obtain ⟨_, c, hc⟩ := (h.mem_filesAt htestNames (by simp [testsAt])
      (h.namedIn_tests hQ N f)).mp hf
    exact hQz f (h.tests N f _ hc)
  · obtain ⟨_, c, hc⟩ := (h.mem_filesAt hsourceNames (by simp [Project.sourcesAt])
      (h.namedIn_sources hQ N f)).mp hf
    exact hQz f (h.sources N f _ hc)

/-! ## Include directories -/

/-- What there is under a name of the configured include directory has a name as
wanted. -/
def Project.IncludesNamed (P : Project) (Q : String → Prop) (d : Disk) : Prop :=
  ∀ l s e, d.find? (l ++ [s]) = some e → s ∈ (Path.ofText P.config.includeDir).segments → Q s

/-- **The names of an include directory that is printed are names of what there
is.** -/
theorem notMem_includeDirs (h : P.IncludesNamed Q d) (hQz : ∀ s, Q s → z ∉ s.toList)
    (hz : z ≠ '.') (hsource : z ∉ P.config.sourceDir.toList) :
    ∀ p ∈ includeDirsAt P d, ∀ t ∈ p.segments, z ∉ t.toList := by
  intro p hp
  have hsegments := Path.notMem_ofText hsource
  unfold includeDirsAt at hp
  dsimp only at hp
  split at hp
  · rename_i hdir
    obtain ⟨l, _, hl, _, _⟩ := Disk.kindAt_eq_some_iff.mp (beq_iff_eq.mp hdir)
    rw [Disk.locate_eq_ok_iff, Disk.resolve_eq_ok_iff] at hl
    have hinner : ∀ t ∈ (Path.ofText P.config.includeDir).segments, z ∉ t.toList := by
      intro t ht
      by_cases hname : Path.IsName t
      · obtain ⟨k, e, he⟩ := hl.2.names t (Path.mem_join_right (Path.mem_join_right ht)) hname
        exact hQz t (h k t e he ht)
      · simp only [Path.IsName, not_and_or, not_not] at hname
        rcases hname with rfl | rfl | rfl
        · simp
        · simpa using hz
        · simpa using hz
    simp only [List.mem_cons, List.not_mem_nil, or_false] at hp
    rcases hp with rfl | rfl
    · exact hsegments
    · exact Path.notMem_join hsegments hinner
  · rw [List.mem_singleton.mp hp]
    exact hsegments

/-- Include directories stay when a disk grows. -/
theorem includeDirsAt_subset {d' : Disk} (P : Project) (hg : d.Grows d') :
    ∀ p ∈ includeDirsAt P d, p ∈ includeDirsAt P d' := by
  intro p hp
  unfold includeDirsAt at hp ⊢
  dsimp only at hp ⊢
  split at hp
  · rename_i hdir
    rw [if_pos (beq_iff_eq.mpr (Disk.kindAt_grows hg (beq_iff_eq.mp hdir)))]
    exact hp
  · rw [List.mem_singleton.mp hp]
    split <;> exact List.mem_cons_self

/-- There is always an include directory. -/
theorem includeDirsAt_ne_nil (P : Project) (d : Disk) : includeDirsAt P d ≠ [] := by
  unfold includeDirsAt
  dsimp only
  split <;> simp

/-- Whether the include directory is there does not hang on what lies below the
tests: it stays as it is while they grow. -/
def Project.IncludesApart (P : Project) (Q : String → Prop) (R : Location) (d : Disk) : Prop :=
  ∀ d', Site P Q R d' → d.Grows d' → Apart R d d' → includeDirsAt P d' = includeDirsAt P d

/-- An include directory that is there already stays there. -/
theorem includesApart_of_there (h : (includeDirsAt P d).length = 2) : P.IncludesApart Q R d := by
  intro d' _ hg _
  unfold includeDirsAt at h ⊢
  dsimp only at h ⊢
  split at h
  · rename_i hdir
    rw [if_pos hdir, if_pos (beq_iff_eq.mpr (Disk.kindAt_grows hg (beq_iff_eq.mp hdir)))]
  · cases h

/-- **An include directory that is given by names lies apart from the tests.** -/
theorem includesApart_of_names (hQ : Naming Q) (hP : P.Sited Q) (h : Site P Q R d)
    (hsource : '/' ∉ P.config.sourceDir.toList)
    (hrooted : (Path.ofText P.config.includeDir).rooted = false)
    (hnames : ∀ s ∈ (Path.ofText P.config.includeDir).segments, Path.IsName s) :
    P.IncludesApart Q R d := by
  intro d' h' _ hapart
  have hdir := hQ.isName hP.sourceDir
  have hinner : (Path.ofText P.config.sourceDir).join (Path.ofText P.config.includeDir) =
      ⟨false, P.sourcesAt (Path.ofText P.config.includeDir).segments⟩ := by
    rw [Path.ofText_of_notMem hsource]
    unfold Path.join
    rw [if_neg (by simp [hrooted]), Path.openEnd_eq_self (by simp [hdir.not_idle])]
    rfl
  have hall : ∀ s ∈ P.sourcesAt (Path.ofText P.config.includeDir).segments, Path.IsName s := by
    intro s hs
    rcases List.mem_cons.mp hs with rfl | hs
    · exact hdir
    · exact hnames s hs
  have hne : P.sourcesAt (Path.ofText P.config.includeDir).segments ≠ [] := List.cons_ne_nil _ _
  unfold includeDirsAt
  dsimp only
  rw [hinner, h'.kindAt hall hne, h.kindAt hall hne, hapart _ (outside_sources hP _)]

end Scaffold
