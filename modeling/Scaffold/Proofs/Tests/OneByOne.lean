import Scaffold.Proofs.Project.Lasting
import Scaffold.Proofs.Tests.Legible
import Scaffold.Proofs.Tests.Order

/-!
# A directory, or its headers one by one

Tests are generated for a directory at once, or for each of its headers by itself. Then
the lists are written once, or again and again.

* `each_header_follows` -- calls for headers take the steps of their plans;
* `Lists`, `texts_one_by_one` -- the orders of the headers in which **tests have the same
  texts one by one**;
* `same_leaf_list` -- the list of the directory is the same for the same tests;
* `one_by_one` -- **headers one by one come to the same as their directory**;
* `one_by_one_differs` -- they do not where a list tells what was there when it was
  written before.
-/
namespace Scaffold.Tests

open Artifact (BuildList)
open BuildTree (listsOf compiledAt)

variable {P : Project} {Q : String → Prop} {R : Location} {d d' d₀ : Disk} {N : List String}
  {overwrite : Bool} {s : Step} {c : String} {names : List String} {path : String → Path}
  {input : Path}

/-! ## 1. Calls for headers -/

/-- A call depends on the path that its input has in the project. -/
theorem generate_follows_relative {L : List String} {t : Job Unit} (hL : ∀ s ∈ L, Path.IsName s)
    (hrel : ((P.relative input).run d).value = .ok ⟨false, L⟩)
    (h : (generate P overwrite ⟨false, L⟩).Follows t d) :
    (generate P overwrite input).Follows t d := by
  unfold generate at h ⊢
  rw [Path.relative_names P hL rfl (Path.components_names hL)] at h
  refine .look (relative_isReads P input) ((Job.ends_of_run hrel).mono (fun rel d' h' => ?_)
    fun _ _ _ => trivial)
  obtain ⟨rfl, hd'⟩ := h'
  exact ⟨hd'.trans (relative_isReads P input).disk, h⟩

/-- The paths in the project of headers right inside a directory. -/
def Spells (P : Project) (d : Disk) (N : List String) (path : String → Path)
    (names : List String) : Prop :=
  ∀ n ∈ names, ((P.relative (path n)).run d).value = .ok ⟨false, P.sourcesAt N ++ [n]⟩

/-- **Calls for headers take the steps of their plans**, one after the other. -/
theorem each_header_follows (hQ : Naming Q) (hP : P.Sited Q) (h : Site P Q R d₀)
    (hN : ∀ t ∈ N, Q t) (hnames : ∀ n ∈ names, n ∈ headersAt P d₀ ⟨false, P.sourcesAt N⟩)
    (hpath : Spells P d₀ N path names) (hd : Site P Q R d) (hg : d₀.Grows d)
    (ha : Apart R d₀ d) :
    (Job.each (fun n => generate P overwrite (path n)) names).Follows
      (Job.each (Step.job P overwrite) (names.flatMap (planOne N))) d := by
  induction names generalizing d with
  | nil => exact .refl _ _
  | cons n names ih =>
    have hn := hnames n List.mem_cons_self
    have hfit := fits_headersAt h hQ hP hN hn
    have hpathnames : ∀ s ∈ P.sourcesAt N ++ [n], Path.IsName s :=
      names_concat (names_sourcesAt hQ hP hN) (hQ.isName hfit)
    obtain ⟨_, c, hc⟩ := (Site.mem_headersAt h hQ hP hN).mp hn
    have hfile : d₀.kindAt true (P.absolute ⟨false, P.sourcesAt N ++ [n]⟩) = some .file := by
      rw [h.kindAt hpathnames (by simp), hc]
      rfl
    have hfirst : (generate P overwrite (path n)).Follows
        (Job.each (Step.job P overwrite) (planOne N n)) d := by
      refine generate_follows_relative hpathnames
        (relative_later hg (hpath n List.mem_cons_self) (by simp) hfile) ?_
      have hfollows : (generate P overwrite ⟨false, P.sourcesAt N ++ [n]⟩).Follows _ d :=
        generate_follows_header hd hQ hP (fits_concat hN hfit) rfl
          (Path.components_names hpathnames)
          (by change d.find? (R ++ (P.sourcesAt N ++ [n])) ≠ _
              rw [ha.sources hP N n, hc]
              simp)
      rwa [List.getLast?_concat, List.dropLast_concat] at hfollows
    rw [List.flatMap_cons, Job.each_append]
    refine .seq hfirst ((each_ran hQ hP hd (planOne_fits hN hfit)).mono (fun _ d' h' => ?_)
      fun _ _ _ => trivial)
    exact ih (fun m hm => hnames m (List.mem_cons_of_mem n hm))
      (fun m hm => hpath m (List.mem_cons_of_mem n hm)) (h'.site hd) (hg.trans h'.grows)
      (ha.trans h'.apart)

/-! ## 2. The steps of both -/

/-- The headers are listed in order, or in any order where no two have the same stem. -/
def Lists (headers names : List String) : Prop :=
  names = headers ∨
    names.Perm headers ∧ names.Pairwise fun n m => (Path.cutName n).1 ≠ (Path.cutName m).1

theorem Lists.perm {headers : List String} (h : Lists headers names) : names.Perm headers :=
  h.elim (fun heq => heq ▸ .refl _) And.left

/-- Headers one by one take the steps of their directory. -/
theorem mem_flatMap_planOne (hnames : names.Perm (headersAt P d ⟨false, P.sourcesAt N⟩)) :
    s ∈ names.flatMap (planOne N) ↔ s ∈ planIn P d N := by
  have hmem : ∀ n, n ∈ headersAt P d ⟨false, P.sourcesAt N⟩ ↔ n ∈ names :=
    fun n => hnames.mem_iff.symm
  have hsome : headersAt P d ⟨false, P.sourcesAt N⟩ ≠ [] ↔ ∃ n, n ∈ names := by
    rw [← List.isEmpty_eq_false_iff, List.isEmpty_eq_false_iff_exists_mem]
    simp only [hmem]
  rw [mem_planIn, hsome, List.mem_flatMap]
  simp only [planOne, List.mem_cons, mem_planList, hmem]
  constructor
  · rintro ⟨n, hn, rfl | hs⟩
    · exact ⟨⟨n, hn⟩, .inl ⟨n, hn, rfl⟩⟩
    · exact ⟨⟨n, hn⟩, .inr hs⟩
  · rintro ⟨⟨m, hm⟩, ⟨n, hn, rfl⟩ | hs⟩
    · exact ⟨n, hn, .inl rfl⟩
    · exact ⟨m, hm, .inr hs⟩

/-- The steps of a directory declare nothing in its own list. -/
theorem ne_declare_of_mem_planIn (h : s ∈ planIn P d N) : ∀ c, s ≠ .declare N c := by
  rintro c rfl
  obtain ⟨_, ⟨n, _, h⟩ | ⟨A, x, hA, h⟩ | h⟩ := mem_planIn.mp h
  · cases h
  · cases h
    have hlong := hA.length_le
    simp at hlong
  · cases h

/-- In a list above, the steps of a directory declare one child and nothing else. -/
theorem declares_one {A : List String} (hA : A ++ [c] <+: N) :
    ∀ s ∈ planIn P d N, s ≠ .relist A ∧ ∀ x, s = .declare A x → x = c := by
  intro s hs
  obtain ⟨_, ⟨n, _, rfl⟩ | ⟨B, x, hB, rfl⟩ | rfl⟩ := mem_planIn.mp hs
  · exact ⟨by simp, by simp⟩
  · refine ⟨by simp, fun y hy => ?_⟩
    cases hy
    have heq := (List.prefix_of_prefix_length_le hB hA (by simp)).eq_of_length (by simp)
    exact (List.append_singleton_inj.mp heq).2
  · refine ⟨fun heq => ?_, by simp⟩
    cases heq
    have hlong := hA.length_le
    simp at hlong

/-- The steps of headers one by one end with the list of their directory, and so do those
of the directory. -/
theorem flatMap_planOne_ends (hne : names ≠ []) :
    ∃ ss, names.flatMap (planOne N) = ss ++ [.relist N] := by
  obtain ⟨A, n, rfl⟩ := names.eq_nil_or_concat.resolve_left hne
  refine ⟨A.flatMap (planOne N) ++ .test N n :: chain N, ?_⟩
  rw [List.concat_eq_append, List.flatMap_append]
  simp [planOne, planList]

theorem planIn_ends (hne : headersAt P d ⟨false, P.sourcesAt N⟩ ≠ []) :
    ∃ ss, planIn P d N = ss ++ [.relist N] := by
  refine ⟨(headersAt P d ⟨false, P.sourcesAt N⟩).map (.test N) ++ chain N, ?_⟩
  unfold planIn planList
  rw [if_neg (by simpa using hne), List.append_assoc]

theorem texts_planList (P : Project) (R : Location) (d : Disk) (T N : List String) :
    texts P R d T (planList N) = [] := by
  refine List.filterMap_eq_nil_iff.mpr fun s hs => ?_
  obtain ⟨A, c, _, rfl⟩ | rfl := mem_planList.mp hs <;> rfl

/-- **Tests have the same texts one by one.** -/
theorem texts_one_by_one (R : Location) (d' : Disk) (T : List String)
    (h : Lists (headersAt P d ⟨false, P.sourcesAt N⟩) names) :
    texts P R d' T (names.flatMap (planOne N)) = texts P R d' T (planIn P d N) := by
  have hone : texts P R d' T (names.flatMap (planOne N)) =
      names.flatMap fun n => texts P R d' T [.test N n] := by
    unfold texts
    rw [List.filterMap_flatMap]
    refine List.flatMap_congr fun n _ => ?_
    have hrest := texts_planList P R d' T N
    unfold texts at hrest
    rw [planOne, ← List.singleton_append, List.filterMap_append, hrest, List.append_nil]
  have hall : texts P R d' T (planIn P d N) =
      (headersAt P d ⟨false, P.sourcesAt N⟩).flatMap fun n => texts P R d' T [.test N n] := by
    have htests : ∀ ns : List String, texts P R d' T (ns.map (.test N)) =
        ns.flatMap fun n => texts P R d' T [.test N n] := by
      intro ns
      induction ns with
      | nil => rfl
      | cons n ns ih =>
        rw [List.map_cons, List.flatMap_cons, ← ih]
        exact List.filterMap_append (l := [Step.test N n])
    have hrest := texts_planList P R d' T N
    unfold texts at hrest htests ⊢
    unfold planIn
    split
    · rename_i hnone
      rw [List.isEmpty_iff.mp hnone]
      rfl
    · rw [List.filterMap_append, hrest, List.append_nil, htests]
  rw [hone, hall]
  rcases h with rfl | ⟨hperm, hstems⟩
  · rfl
  · refine flatMap_eq_of_perm hperm (hstems.imp fun {n m} hne => ?_)
    have hnone : ∀ {n : String}, N ++ [testFile n] ≠ T → texts P R d' T [.test N n] = [] := by
      intro n h
      simp [texts, Step.textFor, h]
    by_cases hn : N ++ [testFile n] = T
    · refine .inr (hnone fun hm => hne (testFile_eq_iff.mp ?_))
      exact (List.append_singleton_inj.mp (hn.trans hm.symm)).2
    · exact .inl (hnone hn)

/-! ## 3. One by one or at once -/

/-- **The list of the directory is the same**, where the tests in it are in the end: the
last step of both writes it, and no other step declares anything in it. -/
theorem same_leaf_list (hP : P.Sited Whole) (htxt : "txt" ∉ P.config.sourceExtensions)
    (hincludes : P.IncludesApart Whole R d₀) (hN : ∀ t ∈ N, Whole t) (h₀ : Legible P R N d₀)
    (hnames : names.Perm (headersAt P d₀ ⟨false, P.sourcesAt N⟩))
    (hsome : headersAt P d₀ ⟨false, P.sourcesAt N⟩ ≠ [])
    (hex : P.excludes (Step.relist N).file = false)
    (h : Ran P Whole R overwrite (planIn P d₀ N) d₀ d)
    (h' : Ran P Whole R overwrite (names.flatMap (planOne N)) d₀ d')
    (htests : compiledAt P d' ⟨false, testsAt N⟩ = compiledAt P d ⟨false, testsAt N⟩) :
    listsOf R d' N = listsOf R d N := by
  have hmem : ∀ s, s ∈ names.flatMap (planOne N) ↔ s ∈ planIn P d₀ N :=
    fun s => mem_flatMap_planOne hnames
  have hfits : ∀ s ∈ planIn P d₀ N, s.Fits Whole := planIn_fits h₀.site naming_whole hP hN
  have hne : names ≠ [] := fun hnil => hsome (List.perm_nil.mp (hnil ▸ hnames).symm)
  obtain ⟨ss, hss⟩ := planIn_ends hsome
  obtain ⟨ss', hss'⟩ := flatMap_planOne_ends (N := N) hne
  have hinit : ∀ s ∈ ss, s ∈ planIn P d₀ N :=
    fun s hs => hss ▸ List.mem_append_left _ hs
  have hinit' : ∀ s ∈ ss', s ∈ planIn P d₀ N :=
    fun s hs => (hmem s).mp (hss' ▸ List.mem_append_left _ hs)
  rw [hss] at h
  rw [hss'] at h'
  rw [h.leaf_list hP htxt hincludes hN h₀ (fun s hs => hfits s (hinit s hs))
      (fun s hs => ne_declare_of_mem_planIn (hinit s hs)) hex,
    h'.leaf_list hP htxt hincludes hN h₀ (fun s hs => hfits s (hinit' s hs))
      (fun s hs => ne_declare_of_mem_planIn (hinit' s hs)) hex, htests]

/-- **Headers one by one come to the same as their directory.** Tests are generated for a
directory of the sources, or for its headers, one after the other: in order, or in any
order where no two have the same stem. If no name breaks a line, if no file of the test
directory is read as a declaration, and if no include directory hangs on the tests, there
is the same in the end, whatever the lists were at first and whatever is excluded. -/
theorem one_by_one (hP : P.Sited Whole) (htxt : "txt" ∉ P.config.sourceExtensions)
    (h₀ : Site P Whole R d₀) (hnamed : P.IncludesNamed OneLine d₀)
    (hincludes : P.IncludesApart Whole R d₀) (hN : ∀ t ∈ N, Whole t)
    (hquiet : ∀ f ∈ compiledAt P d₀ ⟨false, testsAt N⟩, BuildList.declared? f.toList = none)
    (hinput : ((P.relative input).run d₀).value = .ok ⟨false, P.sourcesAt N⟩)
    (hdir : d₀.find? (R ++ P.sourcesAt N) = some .directory)
    (hnames : Lists (headersAt P d₀ ⟨false, P.sourcesAt N⟩) names)
    (hpath : Spells P d₀ N path names)
    (hok : ((generate P overwrite input).run d₀).value = .ok ())
    (hok' : ((Job.each (fun n => generate P overwrite (path n)) names).run d₀).value = .ok ()) :
    ∀ l, ((Job.each (fun n => generate P overwrite (path n)) names).run d₀).disk.find? l =
      ((generate P overwrite input).run d₀).disk.find? l := by
  have hsources := names_sourcesAt naming_whole hP hN
  have hmem : ∀ s, s ∈ names.flatMap (planOne N) ↔ s ∈ planIn P d₀ N :=
    fun s => mem_flatMap_planOne hnames.perm
  have hfits : ∀ s ∈ planIn P d₀ N, s.Fits Whole := planIn_fits h₀ naming_whole hP hN
  have h : Ran P Whole R overwrite (planIn P d₀ N) d₀ ((generate P overwrite input).run d₀).disk :=
    (generate_follows_relative hsources hinput (generate_follows h₀ naming_whole hP hN rfl
      (Path.components_names hsources) hdir) _ _ _
      (each_goes naming_whole hP hfits h₀ (.nil d₀) rfl)).of_run_ok hok
  have h' : Ran P Whole R overwrite (names.flatMap (planOne N)) d₀
      ((Job.each (fun n => generate P overwrite (path n)) names).run d₀).disk :=
    (each_header_follows naming_whole hP h₀ hN (fun n hn => hnames.perm.mem_iff.mp hn) hpath h₀
      (.refl d₀) (.refl R d₀) _ _ _ (each_goes naming_whole hP
        (fun s hs => hfits s ((hmem s).mp hs)) h₀ (.nil d₀) rfl)).of_run_ok hok'
  generalize ((generate P overwrite input).run d₀).disk = d at h ⊢
  generalize ((Job.each _ names).run d₀).disk = d' at h' ⊢
  have hdirs : ∀ l, d'.find? l = some .directory ↔ d.find? l = some .directory := by
    intro l
    rw [h.directory_iff, h'.directory_iff]
    simp only [hmem]
  have helsewhere : ∀ l, (∀ s ∈ planIn P d₀ N, P.excludes s.file = false → ∀ K,
      s.place = K ++ [BuildList.fileName] → l ≠ R ++ testsAt s.place) → d'.find? l = d.find? l :=
    fun l hl => h.same_elsewhere hP h' h₀ h₀ (.refl R d₀) hmem (hdirs l) (fun _ => .inl rfl)
      (fun T _ _ _ => by rw [texts_one_by_one R d₀ T hnames]) hl
  intro l
  by_cases hlist : ∃ s ∈ planIn P d₀ N, P.excludes s.file = false ∧
      ∃ K, s.place = K ++ [BuildList.fileName] ∧ l = R ++ testsAt s.place
  swap
  · exact helsewhere l fun s hs hex K hplace heq => hlist ⟨s, hs, hex, K, hplace, heq⟩
  obtain ⟨s, hs, hex, K, hplace, rfl⟩ := hlist
  -- a list that is written holds the same text in the end
  have hsame : listsOf R d' K = listsOf R d K := by
    obtain ⟨hsome, ⟨n, _, rfl⟩ | ⟨A, c, hA, rfl⟩ | rfl⟩ := mem_planIn.mp hs
    · exact absurd (List.append_singleton_inj.mp hplace).2 (testFile_ne_fileName n)
    · obtain rfl := (List.append_singleton_inj.mp hplace).1
      have hc : '\n' ∉ c.toList := (hN c (hA.subset (by simp))).2
      have honly := declares_one (P := P) (d := d₀) hA
      exact h.same_declared h' hc honly hmem hs hex
    · obtain rfl := (List.append_singleton_inj.mp hplace).1
      exact same_leaf_list hP htxt hincludes hN ⟨⟨h₀, hnamed⟩, hquiet⟩ hnames.perm hsome hex h h'
        (compiled_tests_congr naming_whole htxt (h.site h₀) (h'.site h₀) hN fun l hl =>
          helsewhere l fun s _ _ M hplace heq => hl M (hplace ▸ heq))
  by_cases hdir : d.find? (R ++ testsAt s.place) = some .directory
  · rw [hdir, hdirs, hdir]
  · rw [(h.site h₀).find?_eq hdir, (h'.site h₀).find?_eq fun hdir' => hdir ((hdirs _).mp hdir'),
      hplace, ← listsOf_eq_fileAt, ← listsOf_eq_fileAt, hsame]

/-- A project with two headers, where the lists of the tests were written by hand. -/
def handDisk : Disk :=
  ⟨[(["w"], .directory), (["w", "src"], .directory), (["w", "src", "a"], .directory),
    (["w", "src", "a", "x.h"], .file (.text "class X {};\n")),
    (["w", "src", "a", "y.h"], .file (.text "class Y {};\n")), (["w", "tests"], .directory),
    (["w", "tests", "ut"], .directory),
    (["w", "tests", "ut", "CMakeLists.txt"], .file (.text "# by hand")),
    (["w", "tests", "ut", "a"], .directory),
    (["w", "tests", "ut", "a", "CMakeLists.txt"],
      .file (.text "  add_subdirectory( c )\r\nadd_subdirectory(b)"))]⟩

/-- The headers there come to the same, the last one first. -/
theorem last_header_first :
    ((Job.each (fun n => generate Project.usual true ⟨false, ["src", "a", n]⟩)
      ["y.h", "x.h"]).run handDisk).value = .ok () ∧ ∀ l,
    ((Job.each (fun n => generate Project.usual true ⟨false, ["src", "a", n]⟩)
      ["y.h", "x.h"]).run handDisk).disk.find? l =
    ((generate Project.usual true ⟨false, ["src", "a"]⟩).run handDisk).disk.find? l := by
  have hP : Project.usual.Sited Whole := ⟨by decide, by decide⟩
  have hnames : ∀ l s e, handDisk.find? (l ++ [s]) = some e → Whole s :=
    (Disk.forall_find?_iff (Q := fun _ s => Whole s)).mpr (by decide)
  have hsite : Site Project.usual Whole ["w"] handDisk :=
    site_of_names (by decide +kernel) (by decide) rfl rfl
      (Disk.linkless_of_entries (by decide)) hnames
  have hheaders : headersAt Project.usual handDisk ⟨false, Project.usual.sourcesAt ["a"]⟩ =
      ["x.h", "y.h"] := by decide +kernel
  have hquiet : compiledAt Project.usual handDisk ⟨false, testsAt ["a"]⟩ = [] := by
    decide +kernel
  have hok : ((Job.each (fun n => generate Project.usual true ⟨false, ["src", "a", n]⟩)
      ["y.h", "x.h"]).run handDisk).value = .ok () := Job.ok_of_isOk (by decide +kernel)
  refine ⟨hok, one_by_one (N := ["a"]) hP (by decide) hsite
    (fun l s e he _ => (hnames l s e he).2)
    (includesApart_of_names naming_whole hP hsite (by decide) (by decide) (by decide)) (by decide)
    (fun f hf => by rw [hquiet] at hf; cases hf) rfl rfl (.inr ?_) ?_
    (Job.ok_of_isOk (by decide +kernel)) hok⟩
  · rw [hheaders]
    exact ⟨.swap _ _ _, by decide +kernel⟩
  · exact (by decide +kernel : ∀ n ∈ ["y.h", "x.h"],
      ((Project.usual.relative ⟨false, ["src", "a", n]⟩).run handDisk).value =
        .ok ⟨false, Project.usual.sourcesAt ["a"] ++ [n]⟩)

/-- A project with two headers, and with a test that is named like a declaration, if so
wanted. -/
def plainDisk (declaring : Bool) : Disk :=
  ⟨[(["w"], .directory), (["w", "src"], .directory),
    (["w", "src", "a.h"], .file (.text "class A {};\n")),
    (["w", "src", "b.h"], .file (.text "class B {};\n"))] ++
    if declaring then [(["w", "tests"], .directory), (["w", "tests", "ut"], .directory),
      (["w", "tests", "ut", "add_subdirectory(x.cpp)"], .file (.text "int x;\n"))] else []⟩

/-- A project whose include directory is that of the tests, where the tests are excluded. -/
def includeTests : Project :=
  ⟨⟨true, ["w"]⟩, { includeDir := "../tests/ut" },
    fun p => p == Path.ofText "tests/ut/ut_a.cpp" || p == Path.ofText "tests/ut/ut_b.cpp"⟩

/-- A project where sources may be named like declarations. -/
def declaringSources : Project :=
  ⟨⟨true, ["w"]⟩, { sourceExtensions := ["cpp)"] }, fun _ => false⟩

theorem plainDisk_lined (declaring : Bool) (hP : P.root = ⟨true, ["w"]⟩) :
    Lined P ["w"] (plainDisk declaring) := by
  have hnames : ∀ l s e, (plainDisk declaring).find? (l ++ [s]) = some e → Whole s :=
    (Disk.forall_find?_iff (Q := fun _ s => Whole s)).mpr (by cases declaring <;> decide)
  refine ⟨site_of_names ?_ ?_ ?_ ?_ (Disk.linkless_of_entries ?_) hnames,
    fun l s e he _ => (hnames l s e he).2⟩
  · cases declaring <;> decide +kernel
  · cases declaring <;> decide
  · unfold Project.absolute
    rw [hP]
    cases declaring <;> rfl
  · cases declaring <;> rfl
  · cases declaring <;> decide

/-- A call for one of the headers there. -/
abbrev plainCall (P : Project) (n : String) : Job Unit := generate P false ⟨false, ["src", n]⟩

/-- The list of the tests there, when it is written for the first time. -/
def plainList (declaring : Bool) : BuildList where
  testName := "tests_ut"
  unitTests := if declaring then ["add_subdirectory(x.cpp)"] else []
  sources := []
  includeDirs := [⟨false, ["src"]⟩]
  subdirectories := []

theorem filled_plainList (declaring : Bool) :
    BuildList.filled (plainList declaring).text.toList =
      ((plainList declaring).lines.map String.toList).filter fun l => !l.isEmpty :=
  BuildList.filled_unlines (by cases declaring <;> decide +kernel)

/-- The second call writes the list for what the first one has left, and for its own
test. -/
theorem second_list (hP : P.Sited Whole) (h : Lined P ["w"] d)
    (hheaders : headersAt P d ⟨false, P.sourcesAt []⟩ = ["a.h", "b.h"])
    (hex : P.excludes (Step.relist []).file = false)
    (hpath : ∀ n ∈ ["a.h", "b.h"], ((P.relative ⟨false, ["src", n]⟩).run d).value =
      .ok ⟨false, P.sourcesAt [] ++ [n]⟩)
    (hok : ((plainCall P "a.h").run d).value = .ok ())
    (hok' : ((plainCall P "b.h").run ((plainCall P "a.h").run d).disk).value = .ok ()) :
    ∃ d₁, Lined P ["w"] d₁ ∧ ((plainCall P "a.h").run d).disk.Grows d₁ ∧
      (listFor P d₁ []).subdirectories =
        (listFor P ((plainCall P "a.h").run d).disk []).subdirectories ∧
      Site P Whole ["w"] ((plainCall P "a.h").run d).disk ∧
      listsOf ["w"] ((plainCall P "b.h").run ((plainCall P "a.h").run d).disk).disk [] =
        some (.text (listFor P d₁ []).text) := by
  have hheader : ∀ n ∈ ["a.h", "b.h"], n ∈ headersAt P d ⟨false, P.sourcesAt []⟩ :=
    fun n hn => hheaders ▸ hn
  have hfits : ∀ n ∈ ["a.h", "b.h"], ∀ s ∈ planOne [] n, s.Fits Whole := fun n hn =>
    planOne_fits (by simp) (fits_headersAt h.site naming_whole hP (by simp) (hheader n hn))
  have hcall : ∀ n ∈ ["a.h", "b.h"], ∀ e, Site P Whole ["w"] e → d.Grows e → Apart ["w"] d e →
      ((plainCall P n).run e).value = .ok () →
        Ran P Whole ["w"] false (planOne [] n) e ((plainCall P n).run e).disk := by
    intro n hn e he hg ha hok
    have hfollows : (Job.each (fun n => generate P false ⟨false, ["src", n]⟩) [n]).Follows
        (Job.each (Step.job P false) ([n].flatMap (planOne []))) e :=
      each_header_follows naming_whole hP h.site (by simp)
        (fun m hm => List.mem_singleton.mp hm ▸ hheader n hn)
        (fun m hm => List.mem_singleton.mp hm ▸ hpath n hn) he hg ha
    rw [Job.each_singleton, List.flatMap_singleton] at hfollows
    exact (hfollows _ _ _ (each_goes naming_whole hP (hfits n hn) he (.nil e) rfl)).of_run_ok hok
  have hfirst := hcall "a.h" (by simp) d h.site (.refl d) (.refl _ d) hok
  have hlined := hfirst.lined h (hfits "a.h" (by simp))
  have hsecond : Ran P Whole ["w"] false ([.test [] "b.h"] ++ [.relist []]) _ _ :=
    hcall "b.h" (by simp) _ hlined.site hfirst.grows hfirst.apart hok'
  obtain ⟨d₁, h₁, -, hlist⟩ := hsecond.list_last hex
  refine ⟨d₁, h₁.lined hlined fun s hs => hfits "b.h" (by simp) s ?_, h₁.grows, ?_, hlined.site,
    hlist⟩
  · exact List.mem_singleton.mp hs ▸ List.mem_cons_self
  · obtain _ | ⟨htest, hsite, ⟨⟩⟩ := h₁
    cases htest.list_cases [] with
    | same _ hsame => exact hlined.site.subdirectories_congr hsite naming_whole (by simp) hsame
    | declared heq => cases heq
    | relisted heq => cases heq

/-- One by one or at once, the headers of a directory come to something else. -/
structure Differs (P : Project) (d : Disk) (directory : Path) (path : String → Path)
    (names : List String) : Prop where
  sited : P.Sited Whole
  txt : "txt" ∉ P.config.sourceExtensions
  lined : Lined P ["w"] d
  there : d.kindAt true (P.absolute directory) = some .directory
  headers : Lists (headersAt P d directory) names
  once : ((generate P false directory).run d).value = .ok ()
  each : ((Job.each (fun n => generate P false (path n)) names).run d).value = .ok ()
  other : ∃ l, ((Job.each (fun n => generate P false (path n)) names).run d).disk.find? l ≠
    ((generate P false directory).run d).disk.find? l

/-- There they do, if a line of the second list is not in the first one. -/
theorem plain_differs {declaring : Bool} (hP : P.Sited Whole)
    (htxt : "txt" ∉ P.config.sourceExtensions) (hlined : Lined P ["w"] (plainDisk declaring))
    (hthere : (plainDisk declaring).kindAt true (P.absolute ⟨false, ["src"]⟩) = some .directory)
    (hheaders : headersAt P (plainDisk declaring) ⟨false, P.sourcesAt []⟩ = ["a.h", "b.h"])
    (hsource : P.config.sourceDir = "src") (hex : P.excludes (Step.relist []).file = false)
    (hpath : ∀ n ∈ ["a.h", "b.h"], ((P.relative ⟨false, ["src", n]⟩).run
      (plainDisk declaring)).value = .ok ⟨false, P.sourcesAt [] ++ [n]⟩)
    (honce : ((generate P false ⟨false, ["src"]⟩).run (plainDisk declaring)).value = .ok ())
    (hok : ((plainCall P "a.h").run (plainDisk declaring)).value = .ok ())
    (hok' : ((plainCall P "b.h").run
      ((plainCall P "a.h").run (plainDisk declaring)).disk).value = .ok ())
    (htext : textIn ((generate P false ⟨false, ["src"]⟩).run (plainDisk declaring)).disk
      ["w", "tests", "ut", "CMakeLists.txt"] = some (plainList declaring).text)
    (hline : ∀ d₁, ((plainCall P "a.h").run (plainDisk declaring)).disk.Grows d₁ →
      Site P Whole ["w"] ((plainCall P "a.h").run (plainDisk declaring)).disk →
      (listFor P d₁ []).subdirectories =
        (listFor P ((plainCall P "a.h").run (plainDisk declaring)).disk []).subdirectories →
      ∃ line ∈ (listFor P d₁ []).bodyLines ++
        (listFor P d₁ []).subdirectories.map fun c => (BuildList.declaration c).toList,
        line ∉ (plainList declaring).lines.map String.toList) :
    Differs P (plainDisk declaring) ⟨false, ["src"]⟩ (fun n => ⟨false, ["src", n]⟩)
      ["a.h", "b.h"] := by
  obtain ⟨hvalue, hdisk⟩ := Job.run_each_cons (f := plainCall P) ["b.h"] hok
  rw [Job.each_singleton] at hvalue hdisk
  obtain ⟨d₁, h₁, hgrows, hsub, hsite, hlist⟩ :=
    second_list hP hlined hheaders hex hpath hok hok'
  rw [Project.sourcesAt, hsource] at hheaders
  refine ⟨hP, htxt, hlined, hthere, .inl hheaders.symm, honce, hvalue.trans hok',
    ["w", "tests", "ut", "CMakeLists.txt"], fun heq => ?_⟩
  obtain ⟨line, hline, hnew⟩ := hline d₁ hgrows hsite hsub
  have hfile : ((Job.each (fun n => generate P false ⟨false, ["src", n]⟩)
      ["a.h", "b.h"]).run (plainDisk declaring)).disk.find?
        ["w", "tests", "ut", "CMakeLists.txt"] = some (.file (.text (listFor P d₁ []).text)) :=
    BuildTree.listsOf_eq_some.mp (hdisk ▸ hlist)
  unfold textIn at htext
  rw [← heq, hfile] at htext
  have hsame := congrArg (fun t => BuildList.filled t.toList) (Option.some.inj htext)
  rw [filled_plainList, BuildList.filled_text (h₁.printed hP (by simp)) fun c hc =>
    (BuildTree.trimmed_of_mem_subdirectoriesAt hc).2] at hsame
  exact hnew (List.mem_of_mem_filter (hsame ▸ hline))

/-- A project with two headers that have tests already. -/
def testedDisk : Disk :=
  ⟨[(["w"], .directory), (["w", "src"], .directory), (["w", "src", "a"], .directory),
    (["w", "src", "b"], .directory), (["w", "src", "b", "x.h"], .file (.text "class X {};\n")),
    (["w", "src", "b", "y.h"], .file (.text "class Y {};\n")), (["w", "tests"], .directory),
    (["w", "tests", "ut"], .directory), (["w", "tests", "ut", "b"], .directory),
    (["w", "tests", "ut", "b", "ut_x.cpp"], .file (.text "// by hand\n")),
    (["w", "tests", "ut", "b", "ut_y.cpp"], .file (.text "// by hand\n"))]⟩

theorem testedDisk_lined : Lined Project.usual ["w"] testedDisk := by
  have hnames : ∀ l s e, testedDisk.find? (l ++ [s]) = some e → Whole s :=
    (Disk.forall_find?_iff (Q := fun _ s => Whole s)).mpr (by decide)
  exact ⟨site_of_names (by decide +kernel) (by decide) rfl rfl
    (Disk.linkless_of_entries (by decide)) hnames, fun l s e he _ => (hnames l s e he).2⟩

/-- **Headers one by one come to something else** where the include directory is that of
the tests, where a test is named like a declaration, or on a way that leads up again. The
list that is written first is there for the second one, with its directory, and with what
it seems to declare. And the first test is looked for where there is no directory yet. -/
theorem one_by_one_differs :
    (Differs includeTests (plainDisk false) ⟨false, ["src"]⟩ (fun n => ⟨false, ["src", n]⟩)
        ["a.h", "b.h"] ∧
      ∀ f ∈ compiledAt includeTests (plainDisk false) ⟨false, testsAt []⟩,
        BuildList.declared? f.toList = none) ∧
    (Differs declaringSources (plainDisk true) ⟨false, ["src"]⟩ (fun n => ⟨false, ["src", n]⟩)
        ["a.h", "b.h"] ∧
      declaringSources.IncludesApart Whole ["w"] (plainDisk true)) ∧
    (Differs Project.usual testedDisk ⟨false, ["src", "a", "..", "b"]⟩
        (fun n => ⟨false, ["src", "a", "..", "b", n]⟩) ["y.h", "x.h"] ∧
      Project.usual.IncludesApart Whole ["w"] testedDisk ∧
      ∀ f ∈ compiledAt Project.usual testedDisk ⟨false, testsAt ["b"]⟩,
        BuildList.declared? f.toList = none) := by
  have hP' : declaringSources.Sited Whole := ⟨by decide, by decide⟩
  have hlined' := plainDisk_lined (P := declaringSources) true rfl
  refine ⟨⟨?_, by decide +kernel⟩, ⟨?_, ?_⟩, ?_, ?_, by decide +kernel⟩
  · refine plain_differs ⟨by decide, by decide⟩ (by decide) (plainDisk_lined false rfl)
      (by decide +kernel) (by decide +kernel) rfl (by decide) (by decide +kernel)
      (Job.ok_of_isOk (by decide +kernel)) (Job.ok_of_isOk (by decide +kernel))
      (Job.ok_of_isOk (by decide +kernel)) (by decide +kernel) fun d₁ hgrows _ _ => ?_
    -- the second list includes the directory that the first one lies in
    have hinner : (⟨false, ["src", "..", "tests", "ut"]⟩ : Path) ∈
        BuildTree.includeDirsAt includeTests d₁ :=
      includeDirsAt_subset includeTests hgrows _ (by decide +kernel)
    exact ⟨_, List.mem_append_left _ (BuildList.mem_bodyLines_of_includeDirs hinner),
      by decide +kernel⟩
  · refine plain_differs hP' (by decide) hlined' (by decide +kernel) (by decide +kernel) rfl
      (by decide) (by decide +kernel) (Job.ok_of_isOk (by decide +kernel))
      (Job.ok_of_isOk (by decide +kernel)) (Job.ok_of_isOk (by decide +kernel))
      (by decide +kernel) fun d₁ _ hsite hsub => ?_
    -- the second list declares what the first one is read to declare
    have hfirst : listsOf ["w"] ((plainCall declaringSources "a.h").run (plainDisk true)).disk [] =
        some (.text (plainList true).text) := by decide +kernel
    have hdeclared : "x.cpp" ∈ (listFor declaringSources d₁ []).subdirectories := by
      rw [hsub, hsite.subdirectories_listFor naming_whole (by simp) hfirst,
        BuildList.mem_declaredSubdirectories, BuildList.declarations_eq_filled, filled_plainList]
      decide +kernel
    exact ⟨_, List.mem_append_right _ (List.mem_map_of_mem hdeclared), by decide +kernel⟩
  · exact includesApart_of_names naming_whole hP' hlined'.site (by decide) (by decide) (by decide)
  · refine ⟨⟨by decide, by decide⟩, by decide, testedDisk_lined, by decide +kernel,
      .inr ⟨?_, by decide +kernel⟩, Job.ok_of_isOk (by decide +kernel),
      Job.ok_of_isOk (by decide +kernel), ["w", "tests", "ut", "b", "ut_x.cpp"],
      by decide +kernel⟩
    rw [show headersAt Project.usual testedDisk ⟨false, ["src", "a", "..", "b"]⟩ =
      ["x.h", "y.h"] by decide +kernel]
    exact .swap _ _ _
  · exact includesApart_of_names naming_whole ⟨by decide, by decide⟩ testedDisk_lined.site
      (by decide) (by decide) (by decide)

end Scaffold.Tests
