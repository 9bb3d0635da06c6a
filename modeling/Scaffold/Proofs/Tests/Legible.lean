import Scaffold.Proofs.BuildTree.Carried
import Scaffold.Proofs.Tests.Settled

/-!
# Lists that are written again and again

The list of a test directory is written anew for each header that a test is generated
for, each time from what it was before.

* `Whole`, `Lined`, `Legible` -- names that break no line, and test directories in which
  no file is read as a declaration;
* `Took.legible`, `Ran.carries` -- **steps keep a test directory legible**, and a list
  that is written again keeps its subdirectories;
* `Ran.leaf_list` -- **a list that is written again and again is the list for the tests
  that are there at the end**;
* `Ran.list_declares` -- a list in which steps declare one child comes to declare it,
  however often they do; `Ran.same_declared`: it is the same after two runs of the same
  steps.
-/
namespace Scaffold

open Artifact (BuildList)

/-! ## 1. Names that break no line -/

/-- A name that can be a step of a path and that breaks no line. -/
def Whole (s : String) : Prop := Path.IsName s ∧ OneLine s

instance (s : String) : Decidable (Whole s) :=
  inferInstanceAs (Decidable (Path.IsName s ∧ '\n' ∉ s.toList))

theorem naming_whole : Naming Whole where
  isName h := h.1
  list := by decide
  test h := ⟨(testFile_name _).1, notMem_testFile (by decide) h.2⟩

variable {P : Project} {Q : String → Prop} {R : Location} {d d' d₀ : Disk} {N K : List String}

/-- The list of a directory holds a text where one is read. -/
theorem Site.textAt_list (h : Site P Q R d) (hQ : Naming Q) (hN : ∀ t ∈ N, Q t) {t : String} :
    BuildTree.textAt d (P.absolute ((⟨false, testsAt N⟩ : Path).child BuildList.fileName)) =
      some t ↔ BuildTree.listsOf R d N = some (.text t) := by
  rw [← h.readAt_list hQ hN]
  unfold BuildTree.textAt
  split
  · rename_i t' ht'
    rw [ht']
    simp
  · rename_i hother
    simp only [reduceCtorEq, false_iff]
    exact hother t

/-- Where the list of a directory is the same, it declares the same subdirectories. -/
theorem Site.subdirectories_congr (h : Site P Q R d) (h' : Site P Q R d') (hQ : Naming Q)
    (hN : ∀ t ∈ N, Q t) (hsame : BuildTree.listsOf R d' N = BuildTree.listsOf R d N) :
    (listFor P d' N).subdirectories = (listFor P d N).subdirectories := by
  change BuildTree.subdirectoriesAt d' _ = BuildTree.subdirectoriesAt d _
  unfold BuildTree.subdirectoriesAt
  congr 2
  refine Option.ext fun t => ?_
  rw [h'.textAt_list hQ hN, hsame, h.textAt_list hQ hN]

/-- No name breaks a line, nor does one on the way to the include directory. -/
structure Lined (P : Project) (R : Location) (d : Disk) : Prop where
  site : Site P Whole R d
  named : P.IncludesNamed OneLine d

theorem Lined.printed (h : Lined P R d) (hP : P.Sited Whole) (hN : ∀ t ∈ N, Whole t) :
    ∀ s ∈ (listFor P d N).printed, '\n' ∉ s.toList :=
  h.site.notMem_printed naming_whole hP (by decide) (fun _ hs => hs.2) hN (by decide)
    (notMem_includeDirs h.named (fun _ hs => hs) (by decide) hP.sourceDir.2)

/-- No file of the test directory is read as a declaration either. -/
structure Legible (P : Project) (R : Location) (N : List String) (d : Disk) : Prop
    extends Lined P R d where
  quiet : ∀ f ∈ BuildTree.compiledAt P d ⟨false, testsAt N⟩, BuildList.declared? f.toList = none

theorem Legible.quiet_list (h : Legible P R N d) (hP : P.Sited Whole) (hN : ∀ t ∈ N, Whole t) :
    (listFor P d N).Quiet where
  printed := h.toLined.printed hP hN
  unitTests := h.quiet
  subdirectories _ hc := BuildTree.trimmed_of_mem_subdirectoriesAt hc

/-- A list that no line is read from but its declarations declares its subdirectories. -/
theorem Legible.declared_list (h : Legible P R N d) (hP : P.Sited Whole)
    (hN : ∀ t ∈ N, Whole t) :
    BuildList.declaredSubdirectories (listFor P d N).text = (listFor P d N).subdirectories := by
  have hnodup : (listFor P d N).subdirectories.Nodup := by
    change (BuildTree.subdirectoriesAt d _).Nodup
    unfold BuildTree.subdirectoriesAt
    cases BuildTree.textAt d _ with
    | none => exact List.nodup_nil
    | some t => exact BuildList.nodup_declaredSubdirectories t
  rw [BuildList.declaredSubdirectories_eq, BuildList.declarations_text (h.quiet_list hP hN),
    BuildList.eraseDups_of_nodup hnodup]

namespace Tests

open BuildTree (listsOf compiledAt Declares)

variable {overwrite : Bool} {s : Step} {ss : List Step} {n c : String}

/-! ## 2. Lists that are written again and again -/

/-- A test is not read as a declaration. -/
theorem declared?_testFile (n : String) : BuildList.declared? (testFile n).toList = none := by
  unfold testFile
  rw [toList_testFile, List.cons_append]
  exact BuildList.declared?_of_head rfl (by decide)

theorem Took.lined (h : Lined P R d) (hs : s.Fits Whole) (ht : Took P R overwrite s d d')
    (hd' : Site P Whole R d') : Lined P R d' := by
  refine ⟨hd', ?_⟩
  rcases ht.filed with rfl | ⟨_, _, _, hf⟩
  · exact h.named
  · refine hf.named (fun t ht => ?_) h.named
    rcases List.mem_append.mp ht with ht | ht
    · exact (by decide : ∀ t ∈ ["tests", "ut"], '\n' ∉ t.toList) t ht
    · exact (hs.place naming_whole t ht).2

theorem Ran.lined (h : Ran P Whole R overwrite ss d₀ d) (h₀ : Lined P R d₀)
    (hfits : ∀ s ∈ ss, s.Fits Whole) : Lined P R d :=
  h.keeps h₀ fun s hs _ _ hx ht hsite => ht.lined hx (hfits s hs) hsite

/-- **Steps keep a test directory legible**: the tests that they write are no
declarations. -/
theorem Took.legible (htxt : "txt" ∉ P.config.sourceExtensions) (hN : ∀ t ∈ N, Whole t)
    (h : Legible P R N d) (hs : s.Fits Whole) (ht : Took P R overwrite s d d')
    (hd' : Site P Whole R d') : Legible P R N d' := by
  refine ⟨ht.lined h.toLined hs hd', fun f hf => ?_⟩
  by_cases htest : ∃ n, s = .test N n ∧ f = testFile n
  · obtain ⟨n, _, rfl⟩ := htest
    exact declared?_testFile n
  -- any other file was there before
  · have hnames := names_testsAt naming_whole hN
    have hne : testsAt N ≠ [] := by simp [testsAt]
    obtain ⟨hsource, c, hc⟩ :=
      (hd'.mem_filesAt hnames hne (hd'.namedIn_tests naming_whole N f)).mp hf
    refine h.quiet f ((h.site.mem_filesAt hnames hne
      (h.site.namedIn_tests naming_whole N f)).mpr ⟨hsource, c, ?_⟩)
    rcases ht.filed with rfl | ⟨_, _, _, hfiled⟩
    · exact hc
    rw [← testsAt_concat, ← fileAt_eq_some] at hc ⊢
    rw [← hfiled.fileAt_other fun heq => ?_, hc]
    have hlist : f ≠ BuildList.fileName := by
      rintro rfl
      rw [not_isSource_list htxt hnames] at hsource
      cases hsource
    cases s with
    | test M n =>
      obtain ⟨rfl, hfn⟩ := List.append_singleton_inj.mp heq
      exact htest ⟨n, rfl, hfn⟩
    | declare K c => exact hlist (List.append_singleton_inj.mp heq).2
    | relist M => exact hlist (List.append_singleton_inj.mp heq).2

/-- **A list that is written again keeps its subdirectories.** -/
theorem Took.carries (hP : P.Sited Whole) (hN : ∀ t ∈ N, Whole t) (h : Legible P R N d)
    (hs : ∀ c, s ≠ .declare N c) (ht : Took P R overwrite s d d') (hd' : Site P Whole R d') :
    (listFor P d' N).subdirectories = (listFor P d N).subdirectories := by
  cases ht.list_cases N with
  | same _ hsame => exact h.site.subdirectories_congr hd' naming_whole hN hsame
  | declared heq => exact absurd heq (hs _)
  | relisted _ _ _ _ hafter =>
    rw [hd'.subdirectories_listFor naming_whole hN hafter, h.declared_list hP hN]

/-- Steps that declare nothing in the list of a directory keep its subdirectories. -/
theorem Ran.carries (hP : P.Sited Whole) (htxt : "txt" ∉ P.config.sourceExtensions)
    (hN : ∀ t ∈ N, Whole t) (h₀ : Legible P R N d₀) (h : Ran P Whole R overwrite ss d₀ d)
    (hfits : ∀ s ∈ ss, s.Fits Whole) (hss : ∀ s ∈ ss, ∀ c, s ≠ .declare N c) :
    Legible P R N d ∧ (listFor P d N).subdirectories = (listFor P d₀ N).subdirectories := by
  refine h.keeps (I := fun x => Legible P R N x ∧
    (listFor P x N).subdirectories = (listFor P d₀ N).subdirectories) ⟨h₀, rfl⟩ ?_
  intro s hs x x' hx ht hsite
  exact ⟨ht.legible htxt hN hx.1 (hfits s hs) hsite,
    (ht.carries hP hN hx.1 (hss s hs) hsite).trans hx.2⟩

/-- A list that is written last is the one for the disk before. -/
theorem Ran.list_last (h : Ran P Q R overwrite (ss ++ [.relist N]) d₀ d)
    (hex : P.excludes (Step.relist N).file = false) :
    ∃ d₁, Ran P Q R overwrite ss d₀ d₁ ∧ Took P R overwrite (.relist N) d₁ d ∧
      listsOf R d N = some (.text (listFor P d₁ N).text) := by
  obtain ⟨d₁, h₁, _ | ⟨htook, _, ⟨⟩⟩⟩ := ran_append.mp h
  refine ⟨d₁, h₁, htook, ?_⟩
  cases htook.list_cases N with
  | same hother _ => exact absurd rfl (hother hex).2
  | declared heq => cases heq
  | relisted _ _ _ _ hafter => exact hafter

/-- A list that is not written again has the include directories that were there at
first. -/
theorem Ran.list_includes {ss' : List Step} {p : Path} (hP : P.Sited Whole)
    (hN : ∀ t ∈ N, Whole t) (h₀ : Lined P R d₀)
    (h : Ran P Whole R overwrite (ss ++ [.relist N] ++ ss') d₀ d)
    (hfits : ∀ s ∈ ss, s.Fits Whole) (hex : P.excludes (Step.relist N).file = false)
    (hss' : ∀ s ∈ ss', (∀ c, s ≠ .declare N c) ∧ s ≠ .relist N)
    (hp : p ∈ BuildTree.includeDirsAt P d₀) :
    ∃ t, listsOf R d N = some (.text t) ∧
      (BuildList.fromRoot p).toList ∈ BuildList.filled t.toList := by
  obtain ⟨d₂, h₂, hrest⟩ := ran_append.mp h
  obtain ⟨d₁, h₁, -, hlist⟩ := h₂.list_last hex
  have hlined := h₁.lined h₀ hfits
  refine ⟨(listFor P d₁ N).text, ?_, ?_⟩
  · refine hrest.keeps (I := fun x => listsOf R x N = some (.text (listFor P d₁ N).text)) hlist ?_
    intro s hs x x' hx htook _
    cases htook.list_cases N with
    | same _ hsame => exact hsame.trans hx
    | declared heq => exact absurd heq ((hss' s hs).1 _)
    | relisted heq => exact absurd heq (hss' s hs).2
  · rw [BuildList.filled_text (hlined.printed hP hN) fun c hc =>
      (BuildTree.trimmed_of_mem_subdirectoriesAt hc).2]
    exact List.mem_append_left _
      (BuildList.mem_bodyLines_of_includeDirs (includeDirsAt_subset P h₁.grows p hp))

/-- **A list that is written again and again is the list for the tests that are there at
the end**, with the subdirectories that were declared at first. -/
theorem Ran.leaf_list (hP : P.Sited Whole) (htxt : "txt" ∉ P.config.sourceExtensions)
    (hincludes : P.IncludesApart Whole R d₀) (hN : ∀ t ∈ N, Whole t) (h₀ : Legible P R N d₀)
    (h : Ran P Whole R overwrite (ss ++ [.relist N]) d₀ d) (hfits : ∀ s ∈ ss, s.Fits Whole)
    (hss : ∀ s ∈ ss, ∀ c, s ≠ .declare N c) (hex : P.excludes (Step.relist N).file = false) :
    listsOf R d N = some (.text ({ listFor P d₀ N with
      unitTests := compiledAt P d ⟨false, testsAt N⟩ } : BuildList).text) := by
  obtain ⟨d₁, h₁, htook, hlist⟩ := h.list_last hex
  obtain ⟨hlegible, hsub⟩ := h₁.carries hP htxt hN h₀ hfits hss
  have htests := htook.compiled_tests naming_whole htxt hlegible.site (h.site h₀.site) hN (by simp)
  have hsources := compiled_sources naming_whole hP h₀.site hlegible.site h₁.apart hN
  have hdirs := hincludes _ hlegible.site h₁.grows h₁.apart
  rw [hlist]
  unfold listFor BuildTree.planned at hsub ⊢
  dsimp only at hsub ⊢
  rw [htests, hsources, hdirs, hsub]

/-- **A list in which steps declare one child comes to declare it**, however often they
do so. -/
theorem Ran.list_declares (h : Ran P Q R overwrite ss d d') (hc : '\n' ∉ c.toList)
    (honly : ∀ s ∈ ss, s ≠ .relist K ∧ ∀ x, s = .declare K x → x = c)
    (hmem : .declare K c ∈ ss) (hex : P.excludes (Step.declare K c).file = false) :
    ∃ old new, listsOf R d K = old.map .text ∧ Declares c old new ∧
      listsOf R d' K = some (.text new) := by
  induction h with
  | nil => cases hmem
  | @cons s ss d d₁ d' ht hsite hrest ih =>
    have hlater : ∀ s ∈ ss, s ≠ .relist K ∧ ∀ x, s = .declare K x → x = c :=
      fun s hs => honly s (List.mem_cons_of_mem _ hs)
    cases ht.list_cases K with
    | same hother hsame =>
      rw [← hsame]
      refine ih hlater ((List.mem_cons.mp hmem).resolve_left fun heq => ?_)
      subst heq
      exact (hother hex).1 c rfl
    | relisted heq => exact absurd heq (honly s List.mem_cons_self).1
    | @declared x old new heq _ hdecl hbefore hafter =>
      obtain rfl := (honly s List.mem_cons_self).2 x heq
      have hshows := hdecl.shows hc
      refine ⟨old, new, hbefore, hdecl, ?_⟩
      -- what shows already is not declared again
      refine hrest.keeps (I := fun e => listsOf R e K = some (.text new)) hafter ?_
      intro s hs e e' he ht' _
      cases ht'.list_cases K with
      | same _ hsame => exact hsame.trans he
      | relisted heq => exact absurd heq (hlater s hs).1
      | @declared y old' new' heq' _ hdecl' hbefore' hafter' =>
        obtain rfl := (hlater s hs).2 y heq'
        rcases hdecl'.cases_text (hbefore'.symm.trans he) with ⟨_, rfl⟩ | ⟨hnot, _⟩
        · exact hafter'
        · exact absurd hshows hnot

/-- After two runs of the same steps such a list is the same. -/
theorem Ran.same_declared {ss' : List Step} (h : Ran P Q R overwrite ss d₀ d)
    (h' : Ran P Q R overwrite ss' d₀ d') (hc : '\n' ∉ c.toList)
    (honly : ∀ s ∈ ss, s ≠ .relist K ∧ ∀ x, s = .declare K x → x = c)
    (hmem : ∀ s, s ∈ ss' ↔ s ∈ ss) (hs : .declare K c ∈ ss)
    (hex : P.excludes (Step.declare K c).file = false) : listsOf R d' K = listsOf R d K := by
  obtain ⟨old, new, hold, hdecl, hnew⟩ := h.list_declares hc honly hs hex
  obtain ⟨old', new', hold', hdecl', hnew'⟩ := h'.list_declares hc
    (fun s hs => honly s ((hmem s).mp hs)) ((hmem _).mpr hs) hex
  obtain rfl : old' = old :=
    Option.map_injective (fun _ _ h => by cases h; rfl) (hold'.symm.trans hold)
  rw [hnew, hnew', hdecl.unique hdecl']

end Tests

end Scaffold
