import Scaffold.Proofs.BuildTree.Composed
import Scaffold.Proofs.Tests.Lists

/-!
# What a run leaves settled

After a run, whatever was in the lists at first, each of its steps finds its work done:
tests are there, declarations show, and lists that were written declare and show the
same when they are written again.

* `Fit`, `Unbroken` -- names that break no line, and projects with such names;
* `Done` -- the work of a step is done;
* `Stays` -- it is, whatever may come behind the step, and `Ran.stays`: **so it is for all
  steps of a run**.
-/
namespace Scaffold

open Artifact (BuildList)

/-! ## 1. Names that break no line -/

/-- A text without line feeds. -/
def OneLine (s : String) : Prop := '\n' ∉ s.toList

/-- A name that can be a step of a path and that a declaration by lines keeps. -/
def Fit (s : String) : Prop := Path.IsName s ∧ BuildList.Trimmed s ∧ OneLine s

instance (s : String) : Decidable (Fit s) :=
  inferInstanceAs (Decidable (Path.IsName s ∧ BuildList.Trimmed s ∧ '\n' ∉ s.toList))

theorem naming_fit : Naming Fit where
  isName h := h.1
  list := by decide
  test h := ⟨(testFile_name _).1, (testFile_name _).2, notMem_testFile (by decide) h.2.2⟩

variable {P : Project} {Q B : String → Prop} {R : Location} {d d' : Disk} {X N : List String}
  {old : Option Content} {new : Content}

/-- New files with wanted names do not change what names an include directory has. -/
theorem Filed.named (hf : Filed R (testsAt X) old new d d') (hX : ∀ t ∈ testsAt X, B t)
    (h : P.IncludesNamed B d) : P.IncludesNamed B d' := by
  intro l s e he hs
  rcases hf.there (by simp [testsAt]) he with hold | ⟨_, A, hA, hpre, heq⟩
  · exact h l s e hold hs
  · rcases A.eq_nil_or_concat with rfl | ⟨A, a, rfl⟩
    · exact absurd rfl hA
    · rw [List.concat_eq_append] at heq hpre
      rw [← List.append_assoc] at heq
      rw [(List.append_singleton_inj.mp heq).2]
      exact hX a (hpre.subset (by simp))

/-- No name of the project breaks a line, nor does one on the way to the include
directory. -/
structure Unbroken (P : Project) (R : Location) (d : Disk) : Prop where
  site : Site P Fit R d
  named : P.IncludesNamed OneLine d

theorem Unbroken.printed (h : Unbroken P R d) (hP : P.Sited Fit) (hN : ∀ t ∈ N, Fit t) :
    ∀ s ∈ (listFor P d N).printed, '\n' ∉ s.toList :=
  h.site.notMem_printed naming_fit hP (by decide) (fun _ hs => hs.2.2) hN (by decide)
    (notMem_includeDirs h.named (fun _ hs => hs) (by decide) hP.sourceDir.2.2)

/-- The list of a directory is read where its path leads. -/
theorem Site.readAt_list (h : Site P Q R d) (hQ : Naming Q) (hN : ∀ t ∈ N, Q t) {c : Content} :
    d.readAt (P.absolute ((⟨false, testsAt N⟩ : Path).child BuildList.fileName)) = .ok c ↔
      BuildTree.listsOf R d N = some c := by
  have hnames := names_testsAt hQ hN
  rw [Path.Neat.child (p := ⟨false, testsAt N⟩) fun t ht => (hnames t ht).not_idle,
    h.readAt (Tests.names_concat hnames BuildTree.fileName_isName) (by simp),
    listsOf_eq_fileAt, fileAt_eq_some, testsAt_concat]

/-- The subdirectories of the list of a directory are those that the old one declares. -/
theorem Site.subdirectories_listFor (h : Site P Q R d) (hQ : Naming Q) (hN : ∀ t ∈ N, Q t)
    {t : String} (ht : BuildTree.listsOf R d N = some (.text t)) :
    (listFor P d N).subdirectories = BuildList.declaredSubdirectories t := by
  change BuildTree.subdirectoriesAt d _ = _
  unfold BuildTree.subdirectoriesAt BuildTree.textAt
  rw [(h.readAt_list hQ hN).mpr ht]
  rfl

namespace Tests

open Artifact.BuildList (Shows Composed Older declaredSubdirectories)
open BuildTree (listsOf includeDirsAt compiledAt)

variable {e e' : Disk} {overwrite : Bool} {s s' : Step} {ss : List Step} {K : List String}
  {n c : String}

theorem Took.unbroken (hs : s.Fits Fit) (h : Unbroken P R d)
    (hd' : Site P Fit R d') (ht : Took P R overwrite s d d') : Unbroken P R d' := by
  refine ⟨hd', ?_⟩
  rcases ht.filed with rfl | ⟨_, _, _, hf⟩
  · exact h.named
  · refine hf.named (fun t ht => ?_) h.named
    rcases List.mem_append.mp ht with ht | ht
    · exact (by decide : ∀ t ∈ ["tests", "ut"], '\n' ∉ t.toList) t ht
    · exact (hs.place naming_fit t ht).2.2

/-! ## 2. Work that is done -/

/-- The work of a step is done. -/
def Done (P : Project) (R : Location) (d : Disk) : Step → Prop
  | .test _ _ => True
  | .declare K c => ∃ t, listsOf R d K = some (.text t) ∧ Shows t.toList c
  | .relist N => ∃ t b, listsOf R d N = some (.text t) ∧ Composed b.bodyLines t ∧
      Older b (listFor P d N)

/-- The file of a step is there and its work is done, unless the step is excluded. -/
def Stays (P : Project) (R : Location) (s : Step) (d : Disk) : Prop :=
  P.excludes s.file = false → (d.find? (R ++ testsAt s.place)).isSome ∧ Done P R d s

theorem older_refl (P : Project) (d : Disk) (N : List String) :
    Older (listFor P d N) (listFor P d N) :=
  ⟨rfl, rfl, rfl, fun _ h => h, includeDirsAt_ne_nil P d⟩

/-- A list builds the same as long as no test of its directory is written, and includes
no less. -/
theorem older_later (hP : P.Sited Fit) (htxt : "txt" ∉ P.config.sourceExtensions)
    (hd : Site P Fit R d) (hd' : Site P Fit R d') (h : Took P R overwrite s d d')
    (hN : ∀ t ∈ N, Fit t) (hs : ∀ n, s ≠ .test N n) {b : BuildList}
    (hb : Older b (listFor P d N)) : Older b (listFor P d' N) := by
  have htests := h.compiled_tests naming_fit htxt hd hd' hN hs
  have hsources := compiled_sources naming_fit hP hd hd' h.apart hN
  refine ⟨hb.testName, hb.unitTests.trans htests.symm, hb.sources.trans ?_,
    fun p hp => includeDirsAt_subset P h.grows p (hb.includeDirs p hp), hb.some⟩
  change List.map _ (List.filter _ (compiledAt P d _)) =
    List.map _ (List.filter _ (compiledAt P d' _))
  rw [hsources]

/-- What a list declares that was there stays in its line. -/
theorem subdirectories_fit {b : BuildList} {old : Option String}
    (h : b.subdirectories = (old.map declaredSubdirectories).getD []) :
    ∀ c ∈ b.subdirectories, BuildList.Trimmed c ∧ '\n' ∉ c.toList := by
  intro c hc
  rw [h] at hc
  cases old with
  | none => cases hc
  | some t =>
    exact BuildList.trimmed_of_mem_declarations (BuildList.mem_declaredSubdirectories.mp hc)

/-- **A step does its work.** -/
theorem Took.stays (hP : P.Sited Fit) (htxt : "txt" ∉ P.config.sourceExtensions)
    (h : Unbroken P R d) (hd' : Site P Fit R d') (hs : s.Fits Fit)
    (ht : Took P R overwrite s d d') : Stays P R s d' := by
  intro hex
  rcases ht with ⟨hskip, _⟩ | ⟨_, hdid⟩
  · exact absurd (hex.symm.trans hskip) (by simp)
  refine ⟨hdid.there, ?_⟩
  have htook : Took P R overwrite s d d' := .inr ⟨hex, hdid⟩
  cases s with
  | test N n => trivial
  | declare K c =>
    cases htook.list_cases K with
    | same hother _ => exact absurd rfl ((hother hex).1 c)
    | @declared c' old new heq _ hdecl _ hafter =>
      obtain rfl := (Step.declare.inj heq).2
      exact ⟨new, hafter, hdecl.shows hs.2.2.2⟩
    | relisted heq => cases heq
  | relist N =>
    cases htook.list_cases N with
    | same hother _ => exact absurd rfl (hother hex).2
    | declared heq => cases heq
    | relisted _ _ hsub _ hafter =>
      exact ⟨_, _, hafter, BuildList.composed_text (h.printed hP hs) (subdirectories_fit hsub),
        older_later hP htxt h.site hd' htook hs (by simp) (older_refl P d N)⟩

/-- **Later steps keep the work of earlier ones.** -/
theorem Took.stays_later (hP : P.Sited Fit) (htxt : "txt" ∉ P.config.sourceExtensions)
    (h : Unbroken P R d) (hd' : Site P Fit R d') (hs : s.Fits Fit) (hs' : s'.Fits Fit)
    (hbefore : Precedes s s') (ht : Took P R overwrite s' d d') (hstays : Stays P R s d) :
    Stays P R s d' := by
  intro hex
  obtain ⟨hthere, hdone⟩ := hstays hex
  obtain ⟨x, hx⟩ := Option.isSome_iff_exists.mp hthere
  obtain ⟨x', hx', _⟩ := ht.grows _ _ hx
  refine ⟨by rw [hx']; rfl, ?_⟩
  cases s with
  | test N n => trivial
  | declare K c =>
    obtain ⟨t, hlist, hshows⟩ := hdone
    cases ht.list_cases K with
    | same _ hsame => exact ⟨t, hsame.trans hlist, hshows⟩
    | @declared c' old new _ _ hdecl hold hafter =>
      refine ⟨new, hafter, ?_⟩
      rcases hdecl.cases_text (hold.symm.trans hlist) with ⟨_, rfl⟩ | ⟨_, rfl⟩
      · exact hshows
      · exact (BuildList.shows_extended hs.2.2.2 t).mpr (.inl hshows)
    | relisted heq => exact absurd heq (hbefore.led K c rfl)
  | relist N =>
    obtain ⟨t, b, hlist, hcomposed, holder⟩ := hdone
    have holder' := older_later hP htxt h.site hd' ht hs (hbefore.fresh N · rfl) holder
    cases ht.list_cases N with
    | same _ hsame => exact ⟨t, b, hsame.trans hlist, hcomposed, holder'⟩
    | @declared c' old new heq _ hdecl hold hafter =>
      refine ⟨new, b, hafter, ?_, holder'⟩
      subst heq
      rcases hdecl.cases_text (hold.symm.trans hlist) with ⟨_, rfl⟩ | ⟨_, rfl⟩
      · exact hcomposed
      · exact hcomposed.extended hs'.2.2
    | relisted _ _ hsub _ hafter =>
      exact ⟨_, _, hafter, BuildList.composed_text (h.printed hP hs) (subdirectories_fit hsub),
        older_later hP htxt h.site hd' ht hs (hbefore.fresh N · rfl) (older_refl P d N)⟩

/-- **After a run the work of all its steps is done.** -/
theorem Ran.stays (hP : P.Sited Fit) (htxt : "txt" ∉ P.config.sourceExtensions)
    (hd : Unbroken P R d) (h : Ran P Fit R overwrite ss d d') (hss : ∀ s ∈ ss, s.Fits Fit)
    (horder : ss.Pairwise Precedes) : ∀ s ∈ ss, Stays P R s d' :=
  h.settled hd horder (fun s hs _ _ hd ht hd' => ht.unbroken (hss s hs) hd hd')
    (fun s hs _ _ hd ht hd' => ht.stays hP htxt hd hd' (hss s hs))
    fun s hs s' hs' hbefore _ _ hd hstays ht hd' =>
      ht.stays_later hP htxt hd hd' (hss s hs) (hss s' hs') hbefore hstays

theorem Ran.unbroken (hd : Unbroken P R d)
    (h : Ran P Fit R overwrite ss d d') (hss : ∀ s ∈ ss, s.Fits Fit) : Unbroken P R d' :=
  h.keeps hd fun s hs _ _ hd ht hd' => ht.unbroken (hss s hs) hd hd'

end Tests

end Scaffold
