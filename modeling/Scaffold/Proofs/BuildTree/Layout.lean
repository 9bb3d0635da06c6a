import Scaffold.Proofs.BuildList.Reading
import Scaffold.Proofs.BuildTree.Effects
import Scaffold.Proofs.Path.Pieces

/-!
# Projects without links

In a project without links a path of names leads where its names say. So what a
job adds lies where it was asked to, and what the names in the project are like
stays so.

* `Laid` -- the root of the project is at a location, there are no links below
  it, and the names of sources and tests are clean;
* `Laid.locate_eq` -- **paths of names lead to the location with these names**;
* `Added`, `Laid.added` -- a job that writes below the tests **keeps all this**;
* `Laid.bare_printed` -- no name that is printed in a build list looks like a
  declaration.
-/
namespace Scaffold

open Artifact (BuildList)

/-! ## 1. Clean names -/

/-- A name that can be a step of a path, and that either reading of a build list
finds in its declaration. -/
def Clean (s : String) : Prop := Path.IsName s ∧ BuildList.Declarable s

instance (s : String) : Decidable (Clean s) := inferInstanceAs (Decidable (_ ∧ _))

theorem clean_tests : ∀ s ∈ ["tests", "ut"], Clean s := by decide

theorem clean_below {K : List String} (hK : ∀ s ∈ K, Clean s) :
    ∀ s ∈ ["tests", "ut"] ++ K, Clean s := by
  intro s hs
  rcases List.mem_append.mp hs with hs | hs
  · exact clean_tests s hs
  · exact hK s hs

/-- Settings with which names stay clean: the source directory is not that of the
tests, and nothing is excluded. -/
structure Project.Orderly (P : Project) : Prop where
  sourceDir : Clean P.config.sourceDir
  apart : P.config.sourceDir ≠ "tests"
  includeDir : BuildList.Unbracketed P.config.includeDir ∧ '\n' ∉ P.config.includeDir.toList
  excludes : ∀ p, P.excludes p = false

/-! ## 2. Locations -/

/-- The root of the project is at a location, there are no links below it, and
the names of what lies below the sources and the tests are clean. -/
structure Laid (P : Project) (R : Location) (d : Disk) : Prop where
  grounded : d.Grounded
  root : d.locate true (P.absolute Path.empty) = .ok R
  directory : d.find? R = some .directory
  linkless : ∀ l t, d.find? (R ++ l) ≠ some (.link t)
  sources : ∀ L s e, d.find? (R ++ (P.config.sourceDir :: L ++ [s])) = some e → Clean s
  tests : ∀ L s e, d.find? (R ++ (["tests", "ut"] ++ L ++ [s])) = some e → Clean s

variable {P : Project} {R : Location} {d d' : Disk} {L : List String} {G : Location}

theorem Laid.placed (h : Laid P R d) : P.Placed d :=
  Disk.kindAt_eq_some_iff.mpr ⟨R, .directory, h.root, h.directory, rfl⟩

/-- Below a location without links, names lead to what has these names. -/
theorem Disk.way_names {S : List String} (hR : Disk.Way d true Disk.mostLinks [] S (.found R))
    (hlinks : ∀ l t, d.find? (R ++ l) ≠ some (.link t)) (hL : ∀ s ∈ L, Path.IsName s)
    (h : Disk.Way d true Disk.mostLinks [] (S ++ L) (.found G)) : G = R ++ L := by
  induction L using List.reverseRecOn generalizing G with
  | nil =>
    rw [List.append_nil] at h
    have hsame := (Disk.resolveFrom_eq_ok_iff.mpr h).symm.trans (Disk.resolveFrom_eq_ok_iff.mpr hR)
    cases hsame
    rw [List.append_nil]
  | append_singleton A s ih =>
    have hs : Path.IsName s := hL s (by simp)
    rw [← List.append_assoc] at h
    obtain ⟨k, hk⟩ := h.concat_inv (by simp) (.inl ⟨s, List.mem_singleton_self s, hs.not_idle⟩)
    have hkA : k = R ++ A := ih (fun t ht => hL t (List.mem_append_left _ ht)) hk
    obtain ⟨m, _, happend⟩ := hk.append
    have hlast := Disk.resolveFrom_eq_ok_iff.mpr h
    rw [happend true [s] (by simp), Disk.resolveFrom_eq_ok_iff] at hlast
    obtain ⟨_, ⟨_, hp⟩ | ⟨e, he, hp | ⟨t, rfl⟩⟩⟩ := hlast.name_inv hs
    · cases hp
    · cases hp
      rw [hkA, List.append_assoc]
    · rw [hkA, List.append_assoc] at he
      exact absurd he (hlinks _ t)

/-- The same for a path of the project. -/
theorem Disk.locate_names (hR : d.locate true (P.absolute Path.empty) = .ok R)
    (hlinks : ∀ l t, d.find? (R ++ l) ≠ some (.link t)) (hL : ∀ s ∈ L, Path.IsName s)
    (h : d.locate true (P.absolute ⟨false, L⟩) = .ok G) : G = R ++ L := by
  have hsegments : (P.absolute Path.empty).segments = Path.openEnd P.root.segments :=
    List.append_nil _
  rw [Disk.locate_eq_ok_iff, Disk.resolve_eq_ok_iff, hsegments] at hR
  rw [Disk.locate_eq_ok_iff, Disk.resolve_eq_ok_iff] at h
  exact Disk.way_names hR.2 hlinks hL h.2

/-- **A path of names leads to the location with these names.** -/
theorem Laid.locate_eq (h : Laid P R d) (hL : ∀ s ∈ L, Path.IsName s)
    (hG : d.locate true (P.absolute ⟨false, L⟩) = .ok G) : G = R ++ L :=
  Disk.locate_names h.root h.linkless hL hG

/-! ## 3. What is added -/

/-- Besides the file with a name in a directory, nothing but directories on the
way to it is new. -/
structure Added (R : Location) (L : List String) (name : String) (d d' : Disk) : Prop where
  file : ∃ c, d'.find? (R ++ (L ++ [name])) = some (.file c)
  others : ∀ l, l ≠ R ++ (L ++ [name]) → d'.find? l = d.find? l ∨
    (d.find? l = none ∧ d'.find? l = some .directory ∧ ∃ A B, A ≠ [] ∧ L = A ++ B ∧ l = R ++ A)

/-- In a project without links, what is added to reach a file lies on the way to
it. -/
theorem Laid.added_of_located {name : String} {c : Content} (h : Laid P R d) (hg : d.Grows d')
    (hL : ∀ s ∈ L, Path.IsName s) (hname : Path.IsName name)
    (hG : d'.locate true (P.absolute ⟨false, L ++ [name]⟩) = .ok G)
    (hfile : d'.find? G = some (.file c))
    (hothers : ∀ l, l ≠ G → d'.find? l = d.find? l ∨
      (d.find? l = none ∧ d'.find? l = some .directory ∧ ∃ A B, A ≠ [] ∧ L = A ++ B ∧
        d'.locate true (P.absolute ⟨false, A⟩) = .ok l)) :
    G = R ++ (L ++ [name]) ∧ Added R L name d d' := by
  have hroot : d'.locate true (P.absolute Path.empty) = .ok R := Disk.locate_grows hg h.root
  have hlinks : ∀ l t, d'.find? (R ++ l) ≠ some (.link t) := by
    intro l t hlink
    by_cases hl : R ++ l = G
    · rw [hl, hfile] at hlink
      cases hlink
    · rcases hothers _ hl with hsame | ⟨_, hdir, _⟩
      · exact h.linkless l t (hsame ▸ hlink)
      · rw [hdir] at hlink
        cases hlink
  have hnames : ∀ s ∈ L ++ [name], Path.IsName s := by
    intro s hs
    rcases List.mem_append.mp hs with hs | hs
    · exact hL s hs
    · exact List.mem_singleton.mp hs ▸ hname
  have hGeq : G = R ++ (L ++ [name]) := Disk.locate_names hroot hlinks hnames hG
  subst hGeq
  refine ⟨rfl, ⟨c, hfile⟩, fun l hl => ?_⟩
  rcases hothers l hl with hsame | ⟨hnone, hdir, A, B, hA, hAB, hlA⟩
  · exact .inl hsame
  · have hAnames : ∀ s ∈ A, Path.IsName s := fun s hs => hL s (hAB ▸ List.mem_append_left _ hs)
    exact .inr ⟨hnone, hdir, A, B, hA, hAB, Disk.locate_names hroot hlinks hAnames hlA⟩

/-- **What is added below the tests, under a clean name, keeps the layout.** -/
theorem Laid.added {K : List String} {name : String} (hP : P.Orderly) (h : Laid P R d)
    (hd' : d'.Grounded) (hg : d.Grows d') (hK : ∀ s ∈ K, Clean s) (hname : Clean name)
    (ha : Added R (["tests", "ut"] ++ K) name d d') : Laid P R d' := by
  obtain ⟨c, hfile⟩ := ha.file
  -- whatever is new begins with the directory of the tests
  have hnew : ∀ X e, d'.find? (R ++ X) = some e → d.find? (R ++ X) = some e ∨
      (e.kind ≠ .link ∧ X ≠ [] ∧ X <+: ["tests", "ut"] ++ K ++ [name]) := by
    intro X e he
    by_cases hX : R ++ X = R ++ (["tests", "ut"] ++ K ++ [name])
    · have hX := List.append_cancel_left hX
      subst hX
      rw [hfile] at he
      cases he
      exact .inr ⟨by simp [Entry.kind], by simp, List.prefix_refl _⟩
    · rcases ha.others _ hX with hsame | ⟨_, hdir, A, B, hA, hAB, hXA⟩
      · exact .inl (hsame ▸ he)
      · have hXA := List.append_cancel_left hXA
        subst hXA
        rw [hdir] at he
        cases he
        refine .inr ⟨by simp [Entry.kind], hA, ?_⟩
        rw [hAB, List.append_assoc]
        exact List.prefix_append X _
  refine ⟨hd', Disk.locate_grows hg h.root, hg.directory h.directory, fun l t hl => ?_,
    fun X s e he => ?_, fun X s e he => ?_⟩
  · rcases hnew l _ hl with hold | ⟨hkind, _⟩
    · exact h.linkless l t hold
    · exact hkind rfl
  · rcases hnew _ e he with hold | ⟨_, _, Y, hY⟩
    · exact h.sources X s e hold
    · exact absurd (List.cons.inj hY).1 hP.apart
  · rcases hnew _ e he with hold | ⟨_, _, hpre⟩
    · exact h.tests X s e hold
    · have hs : s ∈ K ++ [name] := by
        rw [List.append_assoc, List.append_assoc, List.prefix_append_right_inj] at hpre
        exact hpre.subset (by simp)
      rcases List.mem_append.mp hs with hs | hs
      · exact hK s hs
      · exact List.mem_singleton.mp hs ▸ hname

/-! ## 4. What is printed -/

/-- A text that stays in its line and has no parentheses. -/
def Bare (s : String) : Prop := ∀ z ∈ ['(', ')', '\n'], z ∉ s.toList

instance (s : String) : Decidable (Bare s) := List.decidableBAll _ _

theorem bare_iff {s : String} : Bare s ↔ BuildList.Unbracketed s ∧ '\n' ∉ s.toList := by
  simp [Bare, BuildList.Unbracketed, and_assoc]

theorem Clean.bare {s : String} (h : Clean s) : Bare s := bare_iff.mpr h.2.2

theorem toList_testFile (n : String) : ("ut_" ++ (Path.cutName n).1 ++ ".cpp").toList =
    'u' :: ("t_".toList ++ (Path.cutName n).1.toList ++ ".cp".toList) ++ ['p'] := by
  have hlast : ".cpp".toList = ".cp".toList ++ ['p'] := by decide
  rw [String.toList_append, String.toList_append, hlast]
  simp

/-- A name that begins otherwise is not that of a test. -/
theorem testFile_ne {n t : String} (h : t.toList.head? ≠ some 'u') :
    "ut_" ++ (Path.cutName n).1 ++ ".cpp" ≠ t := by
  rintro rfl
  rw [toList_testFile] at h
  exact h rfl

/-- The name of a test can be a step of a path, and has no blanks around it. -/
theorem testFile_name (n : String) : Path.IsName ("ut_" ++ (Path.cutName n).1 ++ ".cpp") ∧
    BuildList.Trimmed ("ut_" ++ (Path.cutName n).1 ++ ".cpp") := by
  refine ⟨⟨testFile_ne (by decide), testFile_ne (by decide), testFile_ne (by decide)⟩, ?_, ?_⟩
  · rw [toList_testFile]
    simp
  · rw [toList_testFile]
    exact Text.trim_eq_self (by decide) (by decide) _

/-- The name of a test has the characters of the name of the header, and its own. -/
theorem notMem_testFile {n : String} {z : Char} (hz : z ∉ "ut_.cpp".toList)
    (h : z ∉ n.toList) : z ∉ ("ut_" ++ (Path.cutName n).1 ++ ".cpp").toList := by
  have hsplit : "ut_.cpp".toList = "ut_".toList ++ ".cpp".toList := by decide
  rw [hsplit, List.mem_append, not_or] at hz
  rw [String.toList_append, String.toList_append, List.mem_append, List.mem_append, not_or, not_or]
  exact ⟨⟨hz.1, Path.notMem_stem h⟩, hz.2⟩

/-- The name of a test is clean if the name of the header is. -/
theorem clean_testFile {n : String} (h : Bare n) :
    Clean ("ut_" ++ (Path.cutName n).1 ++ ".cpp") := by
  have hbefore : ∀ z ∈ ['(', ')', '\n'], z ∉ "ut_.cpp".toList :=
    List.forall_iff_forall_mem.mp (by decide)
  obtain ⟨hname, htrimmed⟩ := testFile_name n
  exact ⟨hname, htrimmed, bare_iff.mp fun z hz => notMem_testFile (hbefore z hz) (h z hz)⟩

/-- What is listed in a directory lies there. -/
theorem Laid.find_of_filesAt (h : Laid P R d) (hL : ∀ s ∈ L, Path.IsName s)
    {wanted : String → Bool} {f : String} (hf : f ∈ BuildTree.filesAt P d ⟨false, L⟩ wanted) :
    ∃ e, d.find? (R ++ (L ++ [f])) = some e := by
  unfold BuildTree.filesAt at hf
  split at hf
  · rename_i entries hlist
    obtain ⟨l, hl, _, rfl⟩ := Disk.listAt_eq_ok_iff.mp hlist
    rw [BuildTree.mem_inOrder, List.mem_filter, List.mem_filter] at hf
    obtain ⟨⟨s, k⟩, hmem, rfl⟩ := List.mem_map.mp hf.1.1
    obtain ⟨e, he⟩ := Disk.find?_of_mem_children hmem
    rw [h.locate_eq hL hl, List.append_assoc] at he
    exact ⟨e, he⟩
  · cases hf

theorem Laid.bare_includeDirs (hP : P.Orderly) (d : Disk) {p : Path}
    (hp : p ∈ BuildTree.includeDirsAt P d) : ∀ s ∈ p.segments, Bare s := by
  have hsource : ∀ s ∈ (Path.ofText P.config.sourceDir).segments, Bare s :=
    fun s hs z hz => Path.notMem_ofText (hP.sourceDir.bare z hz) s hs
  have hinclude : ∀ s ∈ (Path.ofText P.config.includeDir).segments, Bare s :=
    fun s hs z hz => Path.notMem_ofText (bare_iff.mpr hP.includeDir z hz) s hs
  have hinner : ∀ s ∈ ((Path.ofText P.config.sourceDir).join
      (Path.ofText P.config.includeDir)).segments, Bare s :=
    fun s hs z hz => Path.notMem_join (fun t ht => hsource t ht z hz)
      (fun t ht => hinclude t ht z hz) s hs
  unfold BuildTree.includeDirsAt at hp
  dsimp only at hp
  split at hp
  · simp only [List.mem_cons, List.not_mem_nil, or_false] at hp
    rcases hp with rfl | rfl
    · exact hsource
    · exact hinner
  · rw [List.mem_singleton.mp hp]
    exact hsource

/-- A character of no name is not printed in the list of a directory, unless it
separates names. -/
theorem BuildTree.notMem_printed {z : Char} (hz : z ≠ '/' ∧ z ≠ '.' ∧ z ≠ '_') {S : List String}
    (hneat : (⟨false, S⟩ : Path).Neat) (hL : ∀ t ∈ L, z ∉ t.toList) (hS : ∀ t ∈ S, z ∉ t.toList)
    (htests : ∀ f ∈ compiledAt P d ⟨false, L⟩, z ∉ f.toList)
    (hsources : ∀ f ∈ compiledAt P d ⟨false, S⟩, z ∉ f.toList)
    (hdirs : ∀ p ∈ includeDirsAt P d, ∀ t ∈ p.segments, z ∉ t.toList) :
    ∀ s ∈ (planned P d ⟨false, L⟩ ⟨false, S⟩).printed, z ∉ s.toList := by
  have hslash : z ∉ "/".toList := by simpa using hz.1
  have hbar : z ∉ "_".toList := by simpa using hz.2.2
  intro s hs
  rcases List.mem_cons.mp hs with rfl | hs
  · exact Path.notMem_spelled (p := ⟨false, L⟩) hbar ⟨hz.1, hz.2.1⟩ hL
  · rcases List.mem_append.mp hs with hs | hs
    · exact htests s hs
    · obtain ⟨p, hp, rfl⟩ := List.mem_map.mp hs
      refine Path.notMem_spelled hslash ⟨hz.1, hz.2.1⟩ ?_
      rcases List.mem_append.mp hp with hp | hp
      · obtain ⟨f, hf, rfl⟩ := List.mem_map.mp hp
        rw [hneat.child]
        intro t ht
        rcases List.mem_append.mp ht with ht | ht
        · exact hS t ht
        · rw [List.mem_singleton.mp ht]
          exact hsources f (List.mem_filter.mp hf).1
      · exact hdirs p hp

/-- **What is printed in the list of a test directory is bare.** -/
theorem Laid.bare_printed {N : List String} (hP : P.Orderly) (h : Laid P R d)
    (hN : ∀ s ∈ N, Clean s) {s : String}
    (hs : s ∈ (BuildTree.planned P d ⟨false, ["tests", "ut"] ++ N⟩
      ⟨false, P.config.sourceDir :: N⟩).printed) : Bare s := by
  have hsource : ∀ t ∈ P.config.sourceDir :: N, Clean t := by
    intro t ht
    rcases List.mem_cons.mp ht with rfl | ht
    · exact hP.sourceDir
    · exact hN t ht
  have htest : ∀ t ∈ ["tests", "ut"] ++ N, Clean t := clean_below hN
  have hother : ∀ z ∈ ['(', ')', '\n'], z ≠ '/' ∧ z ≠ '.' ∧ z ≠ '_' := by simp
  intro z hz
  refine BuildTree.notMem_printed (hother z hz) (fun t ht => (hsource t ht).1.not_idle)
    (fun t ht => (htest t ht).bare z hz) (fun t ht => (hsource t ht).bare z hz)
    (fun f hf => ?_) (fun f hf => ?_) (fun p hp t ht => Laid.bare_includeDirs hP d hp t ht z hz) s hs
  · obtain ⟨e, he⟩ := h.find_of_filesAt (fun t ht => (htest t ht).1) hf
    exact (h.tests N f e he).bare z hz
  · obtain ⟨e, he⟩ := h.find_of_filesAt (fun t ht => (hsource t ht).1) hf
    exact (h.sources N f e he).bare z hz

end Scaffold
