import Scaffold.Proofs.Tests.Alike
import Scaffold.Proofs.Tests.Legible

/-!
# Trees after an interrupted run

A run for a tree that is cut off leaves a part of its steps done, and some
directories for the next one. The next run takes all steps again.

* `Cut` -- the disks that are left when steps are cut off, and `each_goes`: **steps pass
  through no others**;
* `cut_repaired` -- taking the steps again comes to the same as taking them once, up to
  empty lines of lists;
* `interrupted_tree_repaired` -- **an interrupted tree run is repaired by the next one**.
-/
namespace Scaffold

/-- What lies between two sites is a site. -/
theorem Site.between {P : Project} {Q : String → Prop} {R : Location} {d d' x : Disk}
    (h : Site P Q R d) (h' : Site P Q R d') (hg : d.Grows x) (hg' : x.Grows d')
    (hx : x.Grounded ∧ x.Distinct) : Site P Q R x := by
  refine ⟨hx.1, hx.2, Disk.locate_grows hg h.root, hg.directory h.directory, fun l t hl => ?_,
    fun L s e he => ?_, fun L s e he => ?_⟩
  · obtain ⟨e', he', heq | ⟨hkind, _⟩⟩ := hg' _ _ hl
    · exact h'.linkless l t (heq ▸ he')
    · cases hkind
  · obtain ⟨e', he', _⟩ := hg' _ _ he
    exact h'.sources L s e' he'
  · obtain ⟨e', he', _⟩ := hg' _ _ he
    exact h'.tests L s e' he'

/-- A site with names of one kind is one with names of a wider kind. -/
theorem Site.mono {P : Project} {Q Q' : String → Prop} {R : Location} {d : Disk}
    (h : Site P Q R d) (hQ : ∀ s, Q s → Q' s) : Site P Q' R d :=
  { h with
    sources := fun L s e he => hQ s (h.sources L s e he)
    tests := fun L s e he => hQ s (h.tests L s e he) }

namespace Tests

open Artifact (BuildList)
open BuildTree (listsOf includeDirsAt)

variable {P : Project} {Q : String → Prop} {R : Location} {d d' d₀ x : Disk} {overwrite : Bool}
  {all done ss : List Step} {N : List String} {input : Path}

/-! ## 1. Steps that are cut off -/

/-- What is left when steps are cut off: some of them are done, and there may be
directories for the next one. -/
def Cut (P : Project) (Q : String → Prop) (R : Location) (overwrite : Bool) (all : List Step)
    (d₀ x : Disk) : Prop :=
  ∃ done d, done <+: all ∧ Ran P Q R overwrite done d₀ d ∧ d.Extends x ∧
    x.Grounded ∧ x.Distinct

/-- **Steps pass through no other disks.** -/
theorem each_goes (hQ : Naming Q) (hP : P.Sited Q) (hfits : ∀ s ∈ all, s.Fits Q)
    (hd : Site P Q R d) (hdone : Ran P Q R overwrite done d₀ d) (hall : done ++ ss = all) :
    (Job.each (Step.job P overwrite) ss).Goes (Cut P Q R overwrite all d₀) (fun _ => True)
      (fun _ => Ran P Q R overwrite all d₀) d := by
  have hcut : ∀ {ss' : List Step} {d x : Disk}, ss' <+: all → Ran P Q R overwrite ss' d₀ d →
      d.Extends x → x.Grounded ∧ x.Distinct → Cut P Q R overwrite all d₀ x :=
    fun hss' h hx hsound => ⟨_, _, hss', h, hx, hsound⟩
  induction ss generalizing done d with
  | nil =>
    rw [List.append_nil] at hall
    subst hall
    exact ⟨hcut (List.prefix_refl _) hdone (.refl d) ⟨hd.grounded, hd.distinct⟩, hdone⟩
  | cons s ss ih =>
    have hpre : done <+: all := hall ▸ List.prefix_append _ _
    have hnext : done ++ [s] ++ ss = all := by rw [List.append_assoc]; exact hall
    have hran : ∀ d', Took P R overwrite s d d' → Site P Q R d' →
        Ran P Q R overwrite (done ++ [s]) d₀ d' :=
      fun d' h hsite => ran_append.mpr ⟨d, hdone, .cons h hsite (.nil d')⟩
    unfold Job.each
    rw [Job.goes_bind]
    refine (Step.goes hQ hP hd (hfits s (by simp [← hall])) (Job.says_true _)
      (fun x => hcut hpre hdone) fun d' h hsite => ?_).mono fun _ d' h' => ?_
    · exact hcut (hnext ▸ List.prefix_append _ _) (hran d' h hsite) (.refl d')
        ⟨hsite.grounded, hsite.distinct⟩
    · exact ih h'.2 (hran d' h'.1 h'.2) hnext

/-! ## 2. Steps that are taken again -/

/-- The texts have the same lines, but for empty ones. -/
def SameLines (t t' : String) : Prop := BuildList.filled t.toList = BuildList.filled t'.toList

/-- What becomes a directory while steps are cut off lies below the tests. -/
theorem apart_of_extends (h : Ran P Q R overwrite done d₀ d) (hall : Apart R d₀ d')
    (hx : d.Extends x) (hg : x.Grows d') : Apart R d₀ x := by
  intro l hl
  rw [← h.apart l hl]
  rcases hx l with hsame | ⟨hnone, hdir⟩
  · exact hsame
  · have hdir' := hg.directory hdir
    rw [hall l hl, ← h.apart l hl, hnone] at hdir'
    cases hdir'

/-- What steps leave that are cut off is a site, with the sources as they were. -/
theorem Cut.later (hcut : Cut P Q R overwrite all d₀ x) (h₀ : Site P Q R d₀)
    (h : Ran P Q R overwrite all d₀ d) (hx : x.Grows d) :
    Site P Q R x ∧ d₀.Grows x ∧ Apart R d₀ x := by
  obtain ⟨done, d₂, _, h₂, hext, hsound⟩ := hcut
  exact ⟨(h₂.site h₀).between (h.site h₀) hext.grows hx hsound, h₂.grows.trans hext.grows,
    apart_of_extends h₂ h.apart hext hx⟩

/-- **Steps that are taken again come to the same**, up to empty lines of lists. -/
theorem cut_repaired (hr : Regular P R d₀) (hnone : ∀ K, listsOf R d₀ K = none)
    (hfits : ∀ s ∈ all, s.Fits Clean) (hfresh : all.Pairwise Fresh)
    (h : Ran P Clean R overwrite all d₀ d) (hcut : Cut P Clean R overwrite all d₀ x)
    (hx : x.Grows d) (hagain : Ran P Clean R overwrite all x d') :
    AlikeBut SameLines R d d' := by
  obtain ⟨hsite, hgrows, hapart⟩ := hcut.later hr.site h hx
  have hrx : Regular P R x := hr.later hsite hgrows hapart
  obtain ⟨done, d₂, hdone, h₂, hext, _⟩ := hcut
  have hdirectories : ∀ l, d'.find? l = some .directory ↔ d.find? l = some .directory := by
    intro l
    rw [hagain.directory_iff, h.directory_iff]
    constructor
    · rintro (hl | hl)
      · exact h.directory_iff.mp (hx.directory hl)
      · exact .inr hl
    · exact fun hl => hl.imp_left fun hl => hgrows.directory hl
  have hpaired : Paired P R overwrite all all d₀ x d d' := by
    refine ⟨hr, hrx, hapart, hgrows, h, hagain, hfits, fun _ => Iff.rfl, hdirectories,
      fun l hl => ?_, fun T hdir hT => ?_⟩
    · by_cases hdir : x.find? l = some .directory
      · exact .inr hdir
      · have hsame := (hext l).resolve_right fun hl => hdir hl.2
        refine .inl (hsame.trans ?_)
        exact h₂.elsewhere (fun s hs _ => hl s (hdone.subset hs)) (hsame ▸ hdir)
    · have hdir₂ : d₂.find? (R ++ testsAt T) ≠ some .directory :=
        fun hl => hdir (hx.directory (hext.grows.directory hl))
      have hfile : fileAt R x T = fileAt R d₂ T :=
        Option.ext fun c => by rw [fileAt_eq_some, fileAt_eq_some, hext.file_iff]
      rw [hfile, h₂.test hr.sited hr.site hT (hr.excludes _) hdir₂]
      exact lastly_again _ (hdone.filterMap _)
  refine hpaired.alike fun K hK => ?_
  -- the list after the run, after the cut, and after the next run
  have hlist := h.holds hr hfits hfresh hK (x := none) (hnone K)
  have hlist₂ := h₂.holds hr (fun s hs => hfits s (hdone.subset hs))
    (hfresh.sublist hdone.sublist) hK (x := none) (hnone K)
  have hlists : listsOf R x K = listsOf R d₂ K :=
    BuildTree.listsOf_congr fun c => hext.file_iff c
  have hlist' := hagain.holds hrx hfits hfresh hK (hlist₂.of_eq hlists)
  rw [hpaired.bodyLines_eq hK, listAfter_again hdone] at hlist'
  cases hstate : listAfter (listFor P d K).bodyLines K all none with
  | none =>
    rw [hstate] at hlist hlist'
    exact .inl ⟨hlist, hlist'⟩
  | some y =>
    rw [hstate] at hlist hlist'
    obtain ⟨t, ht, hw⟩ := hlist
    obtain ⟨t', ht', hw'⟩ := hlist'
    exact .inr ⟨t, t', ht, ht', hw.filled.trans hw'.filled.symm⟩

/-! ## 3. Tree runs -/

/-- What a tree run that goes well does, and what it leaves when it is cut off. -/
theorem generateTree_goes (overwrite : Bool) (hQ : Naming Q) (hP : P.Sited Q) (h : Site P Q R d)
    (hN : ∀ t ∈ N, Q t) (hr : input.rooted = false)
    (hinput : input.components = (P.sourcesAt N).map .name) :
    (generateTree P overwrite input).Goes (Cut P Q R overwrite (planTree P d N) d)
      (fun _ => True) (fun _ => Ran P Q R overwrite (planTree P d N) d) d :=
  generateTree_follows h hQ hP hN hr hinput _ _ _
    (each_goes hQ hP (planTree_fits h hQ hP hN) h (.nil d) rfl)

/-- **An interrupted tree run is repaired by the next one.** In a project without
excludes, with clean names, where the test tree has no lists at first: when a tree run
is cut off anywhere and the next one goes well, there is the same as after one run
that goes well, but for empty lines of lists. -/
theorem interrupted_tree_repaired (hP : P.Sited Clean) (hex : ∀ p, P.excludes p = false)
    (htxt : "txt" ∉ P.config.sourceExtensions) (h₀ : Site P Clean R d₀)
    (hnone : ∀ K, listsOf R d₀ K = none) (hnamed : P.IncludesNamed Bare d₀)
    (hincludes : P.IncludesApart Clean R d₀) (hN : ∀ t ∈ N, Clean t)
    (hrooted : input.rooted = false) (hinput : input.components = (P.sourcesAt N).map .name)
    (hdone : ((generateTree P overwrite input).run d₀).value = .ok ())
    (hcut : (generateTree P overwrite input).Interrupted d₀ x)
    (hagain : ((generateTree P overwrite input).run x).value = .ok ()) :
    AlikeBut SameLines R ((generateTree P overwrite input).run d₀).disk
      ((generateTree P overwrite input).run x).disk := by
  have hr : Regular P R d₀ := regular_of_named hP hex htxt h₀ hnamed hincludes
  have hgoes := generateTree_goes overwrite naming_clean hP h₀ hN hrooted hinput
  have hran := hgoes.of_run_ok hdone
  have hgrows := hcut.grows_run .empty
  have hcutdisk := hgoes.interrupted hcut
  obtain ⟨hx, -, hapart⟩ := hcutdisk.later h₀ hran hgrows
  have hran' := (generateTree_goes overwrite naming_clean hP hx hN hrooted hinput).of_run_ok hagain
  rw [planTree_congr h₀ hx naming_clean hP hapart hN] at hran'
  exact cut_repaired hr hnone (planTree_fits h₀ naming_clean hP hN)
    ((planTree_precedes P h₀.distinct N).imp fun h => h.fresh) hran hcutdisk hgrows hran'

/-- A disk with headers in two directories of the sources. -/
def pairDisk : Disk :=
  ⟨[(["w"], .directory), (["w", "src"], .directory), (["w", "src", "a"], .directory),
    (["w", "src", "a", "x.h"], .file (.text "class X {};\n")), (["w", "src", "b"], .directory),
    (["w", "src", "b", "y.h"], .file (.text "class Y {};\n"))]⟩

theorem pairDisk_names : ∀ l s e, pairDisk.find? (l ++ [s]) = some e →
    Clean s ∧ s ≠ BuildList.fileName :=
  (Disk.forall_find?_iff (Q := fun _ s => Clean s ∧ s ≠ BuildList.fileName)).mpr (by decide)

theorem pairDisk_site {P : Project} (hP : P.root = ⟨true, ["w"]⟩) :
    Site P Clean ["w"] pairDisk := by
  refine site_of_names (by decide +kernel) (by decide) ?_ rfl
    (Disk.linkless_of_entries (by decide)) fun l s e he => (pairDisk_names l s e he).1
  unfold Project.absolute
  rw [hP]
  rfl

theorem pairDisk_lists (K : List String) : listsOf ["w"] pairDisk K = none :=
  BuildTree.listsOf_eq_none (fun l s e he => (pairDisk_names l s e he).2) K

theorem pairDisk_named (P : Project) : P.IncludesNamed Bare pairDisk :=
  fun l s e he _ => (pairDisk_names l s e he).1.bare

/-- The tree run for the sources, with the usual settings. -/
abbrev usualRun : Job Unit := generateTree Project.usual false ⟨false, ["src"]⟩

/-- A run that is cut off when the list of the first directory is not written yet, but
declared. -/
theorem declared_directory_repaired :
    (listsOf ["w"] (usualRun.left 15 pairDisk) []).isSome = true ∧
    listsOf ["w"] (usualRun.left 15 pairDisk) ["a"] = none ∧
    AlikeBut SameLines ["w"] (usualRun.run pairDisk).disk
      (usualRun.run (usualRun.left 15 pairDisk)).disk := by
  have hP : Project.usual.Sited Clean := ⟨by decide, by decide⟩
  have hsite : Site Project.usual Clean ["w"] pairDisk := pairDisk_site rfl
  refine ⟨by decide +kernel, by decide +kernel, ?_⟩
  exact interrupted_tree_repaired (N := []) hP (fun _ => rfl) (by decide) hsite pairDisk_lists
    (pairDisk_named _) (includesApart_of_names naming_clean hP hsite (by decide) (by decide)
      (by decide)) (by decide) rfl (by decide) (Job.ok_of_isOk (by decide +kernel))
    (Job.interrupted_left 15 _ _) (Job.ok_of_isOk (by decide +kernel))

/-- A project whose include directory lies below the tests. -/
def includeInTests : Project := ⟨⟨true, ["w"]⟩, { includeDir := "../tests/ut/b" }, fun _ => false⟩

/-- The list of the first directory there, with or without the include directory. -/
def firstList (included : Bool) : BuildList where
  testName := "tests_ut_a"
  unitTests := ["ut_x.cpp"]
  sources := []
  includeDirs := ⟨false, ["src"]⟩ ::
    if included then [⟨false, ["src", "..", "tests", "ut", "b"]⟩] else []
  subdirectories := []

/-- Its lines that are not empty are those that it is made of. -/
theorem filled_firstList (included : Bool) : BuildList.filled (firstList included).text.toList =
    ((firstList included).lines.map String.toList).filter fun l => !l.isEmpty := by
  refine BuildList.filled_unlines ?_
  cases included <;> decide +kernel

/-- The next run writes the list of the first directory with the include directory, if
the run that is cut off has come to it. -/
theorem next_list_includes
    (hcut : (generateTree includeInTests false ⟨false, ["src"]⟩).Interrupted pairDisk x)
    (hinner : ⟨false, ["src", "..", "tests", "ut", "b"]⟩ ∈ includeDirsAt includeInTests x)
    (hdone : ((generateTree includeInTests false ⟨false, ["src"]⟩).run pairDisk).value = .ok ())
    (hagain : ((generateTree includeInTests false ⟨false, ["src"]⟩).run x).value = .ok ()) :
    ∃ t, listsOf ["w"] ((generateTree includeInTests false ⟨false, ["src"]⟩).run x).disk ["a"] =
        some (.text t) ∧
      (BuildList.fromRoot ⟨false, ["src", "..", "tests", "ut", "b"]⟩).toList ∈
        BuildList.filled t.toList := by
  have hP : includeInTests.Sited Whole := ⟨by decide, by decide⟩
  have hsite : Site includeInTests Whole ["w"] pairDisk :=
    (pairDisk_site rfl).mono fun s hs => ⟨hs.1, hs.bare '\n' (by simp)⟩
  have hplan : planTree includeInTests pairDisk [] = [.test ["a"] "x.h", .declare [] "a"] ++
      [.relist ["a"]] ++ [.test ["b"] "y.h", .declare [] "b", .relist ["b"]] := by
    decide +kernel
  have hgoes : ∀ {d}, Site includeInTests Whole ["w"] d →
      (generateTree includeInTests false ⟨false, ["src"]⟩).Goes
        (Cut includeInTests Whole ["w"] false (planTree includeInTests d []) d) (fun _ => True)
        (fun _ => Ran includeInTests Whole ["w"] false (planTree includeInTests d []) d) d :=
    fun hd => generateTree_goes false naming_whole hP hd (by simp) rfl (by decide)
  obtain ⟨hx, -, hapart⟩ := ((hgoes hsite).interrupted hcut).later hsite
    ((hgoes hsite).of_run_ok hdone) (hcut.grows_run .empty)
  have hran := (hgoes hx).of_run_ok hagain
  rw [planTree_congr hsite hx naming_whole hP hapart (by simp), hplan] at hran
  have hlined : Lined includeInTests ["w"] x := by
    refine ⟨hx, fun _ s _ _ hs => ?_⟩
    exact (by decide : ∀ s ∈ (Path.ofText "../tests/ut/b").segments, '\n' ∉ s.toList) s hs
  refine hran.list_includes hP (by decide) hlined (fun s hs => ?_) rfl (by simp) hinner
  refine planTree_fits hsite naming_whole hP (N := []) (by simp) s ?_
  rw [hplan]
  exact List.mem_append_left _ (List.mem_append_left _ hs)

/-- **Where the include directory lies below the tests, a run may not be repaired**: the
list of the first directory is written before the include directory is there, but in
the next run it is. -/
theorem interrupted_tree_differs :
    includeInTests.Sited Clean ∧ (∀ p, includeInTests.excludes p = false) ∧
      "txt" ∉ includeInTests.config.sourceExtensions ∧
      Site includeInTests Clean ["w"] pairDisk ∧ (∀ K, listsOf ["w"] pairDisk K = none) ∧
      includeInTests.IncludesNamed Bare pairDisk ∧
      ∃ x, (generateTree includeInTests false ⟨false, ["src"]⟩).Interrupted pairDisk x ∧
        ((generateTree includeInTests false ⟨false, ["src"]⟩).run pairDisk).value = .ok () ∧
        ((generateTree includeInTests false ⟨false, ["src"]⟩).run x).value = .ok () ∧
        ¬AlikeBut SameLines ["w"]
          ((generateTree includeInTests false ⟨false, ["src"]⟩).run pairDisk).disk
          ((generateTree includeInTests false ⟨false, ["src"]⟩).run x).disk := by
  refine ⟨⟨by decide, by decide⟩, fun _ => rfl, by decide, pairDisk_site rfl, pairDisk_lists,
    pairDisk_named _, ?_⟩
  have hcut := Job.interrupted_left 41 (generateTree includeInTests false ⟨false, ["src"]⟩) pairDisk
  have hdone : ((generateTree includeInTests false ⟨false, ["src"]⟩).run pairDisk).value = .ok () :=
    Job.ok_of_isOk (by decide +kernel)
  have hagain : ((generateTree includeInTests false ⟨false, ["src"]⟩).run
      ((generateTree includeInTests false ⟨false, ["src"]⟩).left 41 pairDisk)).value = .ok () :=
    Job.ok_of_isOk (by decide +kernel)
  have hinner : ⟨false, ["src", "..", "tests", "ut", "b"]⟩ ∈ includeDirsAt includeInTests
      ((generateTree includeInTests false ⟨false, ["src"]⟩).left 41 pairDisk) := by
    decide +kernel
  refine ⟨_, hcut, hdone, hagain, fun h => ?_⟩
  have hlines := h.textIn_eq (f := fun t => BuildList.filled t.toList) (fun _ _ h => h)
    ["w", "tests", "ut", "a", "CMakeLists.txt"]
  have hfirst : textIn ((generateTree includeInTests false ⟨false, ["src"]⟩).run pairDisk).disk
      ["w", "tests", "ut", "a", "CMakeLists.txt"] = some (firstList false).text := by
    decide +kernel
  obtain ⟨t, ht, hincludes⟩ := next_list_includes hcut hinner hdone hagain
  have hfile : ((generateTree includeInTests false ⟨false, ["src"]⟩).run
      ((generateTree includeInTests false ⟨false, ["src"]⟩).left 41 pairDisk)).disk.find?
      ["w", "tests", "ut", "a", "CMakeLists.txt"] = some (.file (.text t)) :=
    BuildTree.listsOf_eq_some.mp ht
  rw [hfirst, textIn_of_find? hfile, Option.map_some, Option.map_some, filled_firstList] at hlines
  rw [Option.some.inj hlines] at hincludes
  revert hincludes
  decide +kernel

end Tests

end Scaffold
