import Scaffold.Proofs.Tests.Outcomes

/-!
# What steps make of lists

Where names are clean and nothing is excluded, the steps of a call settle what a list
holds up to empty lines.

* `Took.compiled_tests` -- a list and a test elsewhere do not change what a directory
  compiles;
* `ListStep`, `Took.list_cases` -- **all that a step may do to a list**;
* `ListState`, `listAfter` -- the lines and the children of a list, and what steps make
  of them;
* `Ran.holds` -- **a list holds what the steps make of it**, with the lines that its
  directory has at the end;
* `listAfter_again` -- **steps that are taken again add no child**.
-/
namespace Scaffold.Tests

open Artifact (BuildList)
open BuildTree (listsOf Written addAll addOne compiledAt includeDirsAt)

variable {P : Project} {Q : String → Prop} {R : Location} {d d' d₀ : Disk} {overwrite : Bool}
  {s : Step} {ss : List Step} {K N : List String} {n : String}

/-! ## 1. What a directory compiles -/

/-- A list is no compiled source, unless its extension is that of one. -/
theorem not_isSource_list (htxt : "txt" ∉ P.config.sourceExtensions) {L : List String}
    (hL : ∀ t ∈ L, Path.IsName t) :
    P.isSource ((⟨false, L⟩ : Path).child BuildList.fileName) = false := by
  have hneat : (⟨false, L⟩ : Path).Neat := fun t ht => (hL t ht).not_idle
  have hcut : Path.cutName BuildList.fileName = ("CMakeLists", some "txt") := by decide
  unfold Project.isSource Path.hasExtension Path.extension?
  rw [hneat.child, Path.fileName?_concat BuildTree.fileName_isName, Option.bind_some, hcut]
  simpa using htxt

/-- **Only a test of the directory changes what it compiles.** -/
theorem Took.compiled_tests (hQ : Naming Q) (htxt : "txt" ∉ P.config.sourceExtensions)
    (hd : Site P Q R d) (hd' : Site P Q R d') (h : Took P R overwrite s d d')
    (hK : ∀ t ∈ K, Q t) (hs : ∀ n, s ≠ .test K n) :
    compiledAt P d' ⟨false, testsAt K⟩ = compiledAt P d ⟨false, testsAt K⟩ := by
  have hnames := names_testsAt hQ hK
  refine filesAt_congr hd hd' hnames (by simp [testsAt]) (hd.namedIn_tests hQ K)
    (hd'.namedIn_tests hQ K) fun n hn => ?_
  have hsame : fileAt R d' (K ++ [n]) = fileAt R d (K ++ [n]) := by
    rcases h.filed with rfl | ⟨_, _, _, hf⟩
    · rfl
    · refine hf.fileAt_other fun heq => ?_
      have hlist : n ≠ BuildList.fileName := by
        rintro rfl
        rw [not_isSource_list htxt hnames] at hn
        cases hn
      cases s with
      | test N m => exact hs m (by rw [(List.append_singleton_inj.mp heq).1])
      | declare K' c => exact hlist (List.append_singleton_inj.mp heq).2
      | relist N => exact hlist (List.append_singleton_inj.mp heq).2
  simp only [← testsAt_concat, ← fileAt_eq_some, hsame]

theorem Ran.compiled_tests (hQ : Naming Q) (htxt : "txt" ∉ P.config.sourceExtensions)
    (hd : Site P Q R d) (h : Ran P Q R overwrite ss d d') (hK : ∀ t ∈ K, Q t)
    (hss : ∀ s ∈ ss, ∀ n, s ≠ .test K n) :
    compiledAt P d' ⟨false, testsAt K⟩ = compiledAt P d ⟨false, testsAt K⟩ := by
  induction h with
  | nil => rfl
  | cons h hsite _ ih =>
    rw [ih hsite fun s hs => hss s (List.mem_cons_of_mem _ hs),
      h.compiled_tests hQ htxt hd hsite hK (hss _ List.mem_cons_self)]

/-- Where all but lists is the same, a test directory compiles the same. -/
theorem compiled_tests_congr (hQ : Naming Q) (htxt : "txt" ∉ P.config.sourceExtensions)
    (hd : Site P Q R d) (hd' : Site P Q R d') (hK : ∀ t ∈ K, Q t)
    (hsame : ∀ l, (∀ M, l ≠ R ++ testsAt (M ++ [BuildList.fileName])) →
      d'.find? l = d.find? l) :
    compiledAt P d' ⟨false, testsAt K⟩ = compiledAt P d ⟨false, testsAt K⟩ := by
  have hnames := names_testsAt hQ hK
  refine filesAt_congr hd hd' hnames (by simp [testsAt]) (hd.namedIn_tests hQ K)
    (hd'.namedIn_tests hQ K) fun n hn => ?_
  rw [hsame _ fun M heq => ?_]
  rw [← testsAt_concat] at heq
  have heq := List.append_cancel_left (List.append_cancel_left heq)
  rw [(List.append_singleton_inj.mp heq).2, not_isSource_list htxt hnames] at hn
  cases hn

/-- What is compiled beside the sources depends on them only. -/
theorem compiled_sources (hQ : Naming Q) (hP : P.Sited Q) (hd : Site P Q R d)
    (hd' : Site P Q R d') (h : Apart R d d') (hK : ∀ t ∈ K, Q t) :
    compiledAt P d' ⟨false, P.sourcesAt K⟩ = compiledAt P d ⟨false, P.sourcesAt K⟩ :=
  filesAt_congr hd hd' (names_sourcesAt hQ hP hK) (by simp [Project.sourcesAt])
    (hd.namedIn_sources hQ K) (hd'.namedIn_sources hQ K) fun n _ => by rw [h.sources hP K n]

/-- Lists have the same lines where the same is compiled and included. -/
theorem listFor_lines_congr
    (htests : compiledAt P d' ⟨false, testsAt K⟩ = compiledAt P d ⟨false, testsAt K⟩)
    (hsources : compiledAt P d' ⟨false, P.sourcesAt K⟩ = compiledAt P d ⟨false, P.sourcesAt K⟩)
    (hdirs : includeDirsAt P d' = includeDirsAt P d) :
    (listFor P d' K).bodyLines = (listFor P d K).bodyLines := by
  refine BuildTree.bodyLines_congr rfl htests ?_ hdirs
  change List.map _ (List.filter _ (compiledAt P d' _)) = _
  rw [hsources]
  rfl

/-! ## 2. What a step does to a list -/

/-- What a step does to the list of `K`. -/
inductive ListStep (P : Project) (R : Location) (s : Step) (d d' : Disk) (K : List String) : Prop
  /-- The step is about something else, or excluded. -/
  | same (hs : P.excludes s.file = false → (∀ c, s ≠ .declare K c) ∧ s ≠ .relist K)
      (h : listsOf R d' K = listsOf R d K)
  /-- The list declares a child. -/
  | declared {c : String} {old : Option String} {new : String} (hs : s = .declare K c)
      (hex : P.excludes s.file = false)
      (h : BuildTree.Declares c old new) (hbefore : listsOf R d K = old.map .text)
      (hafter : listsOf R d' K = some (.text new))
  /-- The list is written and keeps its subdirectories. -/
  | relisted {old : Option String} (hs : s = .relist K) (hex : P.excludes s.file = false)
      (hsub : (listFor P d K).subdirectories =
        (old.map BuildList.declaredSubdirectories).getD [])
      (hbefore : listsOf R d K = old.map .text)
      (hafter : listsOf R d' K = some (.text (listFor P d K).text))

/-- **All that a step may do to a list.** -/
theorem Took.list_cases (h : Took P R overwrite s d d') (K : List String) :
    ListStep P R s d d' K := by
  have hother : ∀ {T : List String} {old : Option Content} {new : Content},
      K ++ [BuildList.fileName] ≠ T → Filed R (testsAt T) old new d d' →
        listsOf R d' K = listsOf R d K := by
    intro T old new hne hf
    rw [listsOf_eq_fileAt, listsOf_eq_fileAt]
    exact hf.fileAt_other hne
  have hplace : ∀ {K' : List String}, K' ≠ K →
      K ++ [BuildList.fileName] ≠ K' ++ [BuildList.fileName] :=
    fun hne heq => hne (List.append_singleton_inj.mp heq).1.symm
  rcases h with ⟨hskip, rfl⟩ | ⟨hex, hdid⟩
  · exact .same (fun h => absurd (h.symm.trans hskip) (by simp)) rfl
  cases hdid with
  | kept => exact .same (fun _ => ⟨by simp, by simp⟩) rfl
  | @wrote N n _ _ _ _ _ _ hf =>
    refine .same (fun _ => ⟨by simp, by simp⟩) (hother (fun heq => ?_) hf)
    exact testFile_ne_fileName n (List.append_singleton_inj.mp heq).2.symm
  | @declared K' c _ _ old new hdecl hf =>
    by_cases hK : K' = K
    · subst hK
      obtain ⟨hbefore, hafter⟩ := hf.fileAt_here
      rw [← listsOf_eq_fileAt] at hbefore hafter
      exact .declared rfl hex hdecl hbefore hafter
    · exact .same (fun _ => ⟨by simp [hK], by simp⟩) (hother (hplace hK) hf)
  | @relisted N _ _ old hsub hf =>
    by_cases hK : N = K
    · subst hK
      obtain ⟨hbefore, hafter⟩ := hf.fileAt_here
      rw [← listsOf_eq_fileAt] at hbefore hafter
      exact .relisted rfl hex hsub hbefore hafter
    · exact .same (fun _ => ⟨by simp, by simp [hK]⟩) (hother (hplace hK) hf)

/-! ## 3. The state of a list -/

/-- What a list holds up to empty lines: lines that declare nothing, and a declaration
for each of the children. -/
structure ListState where
  base : List (List Char)
  names : List String

/-- The lines of a list, which is started if there is none. -/
def baseOf (x : Option ListState) : List (List Char) :=
  (x.map ListState.base).getD BuildList.startLines

def namesOf (x : Option ListState) : List String := (x.map ListState.names).getD []

/-- The list of a directory is in a state. -/
def Holds (R : Location) (d : Disk) (K : List String) : Option ListState → Prop
  | none => listsOf R d K = none
  | some x => ∃ t, listsOf R d K = some (.text t) ∧ Written x.base x.names t

/-- What a step makes of the list of `K`, which is written with the lines `body`. -/
def Step.onList (body : List (List Char)) (K : List String) (x : Option ListState) :
    Step → Option ListState
  | .test _ _ => x
  | .declare K' c => if K' = K then some ⟨baseOf x, addOne (namesOf x) c⟩ else x
  | .relist K' => if K' = K then some ⟨body, namesOf x⟩ else x

/-- What steps make of the list of `K`. -/
def listAfter (body : List (List Char)) (K : List String) (ss : List Step)
    (x : Option ListState) : Option ListState := ss.foldl (Step.onList body K) x

/-- The child that a step declares in the list of `K`. -/
def Step.childIn (K : List String) : Step → Option String
  | .declare K' c => if K' = K then some c else none
  | _ => none

/-- The children that steps declare in the list of `K`. -/
def childrenIn (K : List String) (ss : List Step) : List String := ss.filterMap (Step.childIn K)

theorem mem_childrenIn {c : String} : c ∈ childrenIn K ss ↔ .declare K c ∈ ss := by
  unfold childrenIn
  rw [List.mem_filterMap]
  constructor
  · rintro ⟨s, hs, hc⟩
    cases s with
    | test N n => cases hc
    | declare K' c' =>
      simp only [Step.childIn, Option.ite_none_right_eq_some, Option.some.injEq] at hc
      obtain ⟨rfl, rfl⟩ := hc
      exact hs
    | relist N => cases hc
  · exact fun h => ⟨_, h, if_pos rfl⟩

/-- A step touches the list of `K`. -/
def Touched (K : List String) (ss : List Step) : Prop := .relist K ∈ ss ∨ childrenIn K ss ≠ []

instance (K : List String) (ss : List Step) : Decidable (Touched K ss) :=
  inferInstanceAs (Decidable (_ ∨ _))

/-- **The lines of a list are those that it was written with**, if it was written, and
its children come in the order in which they are declared. -/
theorem listAfter_eq (body : List (List Char)) (K : List String) (ss : List Step) :
    ∀ x, listAfter body K ss x = if Touched K ss then
      some ⟨if .relist K ∈ ss then body else baseOf x, addAll (namesOf x) (childrenIn K ss)⟩
    else x := by
  induction ss with
  | nil => exact fun x => (if_neg (by simp [Touched, childrenIn])).symm
  | cons s ss ih =>
    intro x
    change listAfter body K ss (s.onList body K x) = _
    rw [ih]
    by_cases hs : s = .relist K
    · subst hs
      have hchildren : childrenIn K (.relist K :: ss) = childrenIn K ss := rfl
      have hstep : (Step.relist K).onList body K x = some ⟨body, namesOf x⟩ := if_pos rfl
      rw [hstep, hchildren, if_pos (c := Touched K (.relist K :: ss)) (.inl List.mem_cons_self)]
      by_cases hrest : Touched K ss
      · simp [hrest, baseOf, namesOf]
      · have hnone : childrenIn K ss = [] := by simpa using (not_or.mp hrest).2
        simp [hrest, hnone, addAll]
    · have hrelist : .relist K ∈ s :: ss ↔ .relist K ∈ ss := by simp [Ne.symm hs]
      by_cases hc : ∃ c, s = .declare K c
      · obtain ⟨c, rfl⟩ := hc
        have hchildren : childrenIn K (.declare K c :: ss) = c :: childrenIn K ss :=
          List.filterMap_cons_some (if_pos rfl)
        have hstep : (Step.declare K c).onList body K x =
            some ⟨baseOf x, addOne (namesOf x) c⟩ := if_pos rfl
        have htouched : Touched K (.declare K c :: ss) := .inr (by simp [hchildren])
        rw [hstep, hchildren, if_pos htouched]
        by_cases hrest : Touched K ss
        · simp only [hrest, if_true, hrelist]
          rfl
        · obtain ⟨hno, hnone⟩ := not_or.mp hrest
          have hnone : childrenIn K ss = [] := by simpa using hnone
          rw [if_neg hrest, if_neg (hrelist.not.mpr hno), hnone]
          rfl
      · -- no other step matters
        have hstep : s.onList body K x = x := by
          cases s with
          | test N n => rfl
          | declare K' c => exact if_neg fun h => hc ⟨c, by rw [h]⟩
          | relist N => exact if_neg fun h => hs (by rw [h])
        have hchildren : childrenIn K (s :: ss) = childrenIn K ss := by
          refine List.filterMap_cons_none ?_
          cases s with
          | test N n => rfl
          | declare K' c => exact if_neg fun h => hc ⟨c, by rw [h]⟩
          | relist N => rfl
        simp only [Touched, hstep, hchildren, hrelist]

/-- **Steps that are taken again change nothing**, after any beginning of them. -/
theorem listAfter_again {body body' : List (List Char)} {before : List Step} (h : before <+: ss)
    (x : Option ListState) :
    listAfter body K ss (listAfter body' K before x) = listAfter body K ss x := by
  have hchildren : childrenIn K before <+: childrenIn K ss := h.filterMap _
  rw [listAfter_eq body' K before]
  by_cases hbefore : Touched K before
  · have htouched : Touched K ss := by
      refine hbefore.imp (fun hm => h.subset hm) fun hne hnil => hne ?_
      rw [hnil] at hchildren
      exact List.prefix_nil.mp hchildren
    rw [if_pos hbefore, listAfter_eq, listAfter_eq, if_pos htouched, if_pos htouched]
    congr 2
    · by_cases hrelist : .relist K ∈ ss
      · rw [if_pos hrelist, if_pos hrelist]
      · have hno : .relist K ∉ before := fun hm => hrelist (h.subset hm)
        rw [if_neg hrelist, if_neg hrelist, if_neg hno]
        rfl
    · exact BuildTree.addAll_again (namesOf x) hchildren
  · rw [if_neg hbefore]

/-! ## 4. Steps where names are clean -/

theorem naming_clean : Naming Clean where
  isName h := h.1
  list := BuildTree.clean_fileName
  test h := clean_testFile h.bare

/-- A project without excludes, with clean names, where what is printed does not hang
on the tests. -/
structure Regular (P : Project) (R : Location) (d : Disk) : Prop where
  sited : P.Sited Clean
  site : Site P Clean R d
  excludes : ∀ p, P.excludes p = false
  txt : "txt" ∉ P.config.sourceExtensions
  includes : P.IncludesApart Clean R d
  bare : ∀ p ∈ includeDirsAt P d, ∀ t ∈ p.segments, Bare t

/-- A project is regular if what is there under the names of its include directory has
a bare name, and does not hang on the tests. -/
theorem regular_of_named (hP : P.Sited Clean) (hex : ∀ p, P.excludes p = false)
    (htxt : "txt" ∉ P.config.sourceExtensions) (h : Site P Clean R d)
    (hnamed : P.IncludesNamed Bare d) (hincludes : P.IncludesApart Clean R d) :
    Regular P R d := by
  have hother : ∀ z ∈ ['(', ')', '\n'], z ≠ '.' := by simp
  refine ⟨hP, h, hex, htxt, hincludes, fun p hp t ht z hz => ?_⟩
  exact notMem_includeDirs hnamed (fun s hs => hs z hz) (hother z hz)
    (hP.sourceDir.bare z hz) p hp t ht

/-- A project stays regular while its tests grow. -/
theorem Regular.later (h : Regular P R d) (hd' : Site P Clean R d') (hg : d.Grows d')
    (ha : Apart R d d') : Regular P R d' := by
  have hsame := h.includes d' hd' hg ha
  refine ⟨h.sited, hd', h.excludes, h.txt, fun d'' h'' hg' ha' => ?_, ?_⟩
  · rw [hsame, h.includes d'' h'' (hg.trans hg') (ha.trans ha')]
  · rw [hsame]
    exact h.bare

theorem Regular.bare_printed (h : Regular P R d) (hN : ∀ t ∈ N, Clean t) :
    ∀ s ∈ (listFor P d N).printed, Bare s := by
  have hother : ∀ z ∈ ['(', ')', '\n'], z ≠ '/' ∧ z ≠ '.' ∧ z ≠ '_' := by simp
  intro s hs z hz
  exact h.site.notMem_printed naming_clean h.sited (hother z hz) (fun s hs => hs.bare z hz) hN
    (fun t ht => (clean_tests t ht).bare z hz) (fun p hp t ht => h.bare p hp t ht z hz) s hs

theorem Holds.of_eq {x : Option ListState} (hx : Holds R d K x)
    (h : listsOf R d' K = listsOf R d K) : Holds R d' K x := by
  cases x with
  | none => exact h.trans hx
  | some x => exact hx.imp fun t ht => ⟨h.trans ht.1, ht.2⟩

/-- What a state says of the text that a list holds. -/
theorem Holds.old {x : Option ListState} {old : Option String} (hx : Holds R d K x)
    (h : listsOf R d K = old.map .text) :
    (x = none ∧ old = none) ∨ ∃ y t, x = some y ∧ old = some t ∧ Written y.base y.names t := by
  cases x with
  | none => exact .inl ⟨rfl, Option.map_eq_none_iff.mp (h.symm.trans hx)⟩
  | some y =>
    obtain ⟨t, ht, hw⟩ := hx
    obtain ⟨t', ht', heq⟩ := Option.map_eq_some_iff.mp (h.symm.trans ht)
    cases heq
    exact .inr ⟨y, t, rfl, ht', hw⟩

/-- **A step makes of a list what it is said to.** -/
theorem Took.holds (hr : Regular P R d) (hs : s.Fits Clean) (h : Took P R overwrite s d d')
    {x : Option ListState} (hx : Holds R d K x) :
    Holds R d' K (s.onList (listFor P d K).bodyLines K x) := by
  cases h.list_cases K with
  | same hother hsame =>
    obtain ⟨hdeclare, hrelist⟩ := hother (hr.excludes _)
    have hstep : s.onList (listFor P d K).bodyLines K x = x := by
      cases s with
      | test N n => rfl
      | declare K' c => exact if_neg fun heq => hdeclare c (by rw [heq])
      | relist N => exact if_neg fun heq => hrelist (by rw [heq])
    rw [hstep]
    exact hx.of_eq hsame
  | @declared c old new heq _ hdecl hbefore hafter =>
    subst heq
    rw [show (Step.declare K c).onList _ K x = some ⟨baseOf x, addOne (namesOf x) c⟩ from
      if_pos rfl]
    refine ⟨new, hafter, ?_⟩
    rcases hx.old hbefore with ⟨rfl, rfl⟩ | ⟨y, t, rfl, rfl, hw⟩
    · cases hdecl
      exact BuildTree.written_started hs.2.2
    · exact hw.declares hdecl hs.2.2
  | @relisted old heq _ hsub hbefore hafter =>
    subst heq
    rw [show (Step.relist K).onList _ K x = some ⟨_, namesOf x⟩ from if_pos rfl]
    refine ⟨_, hafter, ?_⟩
    have hprinted := hr.bare_printed (N := K) hs
    have hnames : (listFor P d K).subdirectories = namesOf x ∧
        (∀ c ∈ namesOf x, BuildList.Declarable c) ∧ (namesOf x).Nodup := by
      rw [hsub]
      rcases hx.old hbefore with ⟨rfl, rfl⟩ | ⟨y, t, rfl, rfl, hw⟩
      · exact ⟨rfl, fun c hc => absurd hc List.not_mem_nil, List.nodup_nil⟩
      · have hnodup : y.names.Nodup := hw.declared ▸ hw.tidy.nodup
        refine ⟨?_, fun c hc => hw.tidy.declarable c (hw.declared ▸ hc), hnodup⟩
        change BuildList.declaredSubdirectories t = y.names
        rw [BuildList.declaredSubdirectories_eq, hw.declared, BuildList.eraseDups_of_nodup hnodup]
    rw [← hnames.1]
    exact BuildTree.written_text ⟨fun s hs => bare_iff.mp (hprinted s hs), hnames.1 ▸ hnames.2.1⟩
      (hnames.1 ▸ hnames.2.2)

/-- **A list holds what the steps make of it**, with the lines that its directory has
at the end. -/
theorem Ran.holds (hr : Regular P R d) (h : Ran P Clean R overwrite ss d d')
    (hss : ∀ s ∈ ss, s.Fits Clean) (hfresh : ss.Pairwise Fresh) (hK : ∀ t ∈ K, Clean t)
    {x : Option ListState} (hx : Holds R d K x) :
    Holds R d' K (listAfter (listFor P d' K).bodyLines K ss x) := by
  induction h generalizing x with
  | nil => exact hx
  | @cons s ss d d₁ d' h hsite hrest ih =>
    obtain ⟨hfirst, hfresh⟩ := List.pairwise_cons.mp hfresh
    have hr₁ := hr.later hsite h.grows h.apart
    have hstep := h.holds hr (hss s List.mem_cons_self) hx
    have hgoal := ih hr₁ (fun s hs => hss s (List.mem_cons_of_mem _ hs)) hfresh hstep
    -- when the list itself is written, the tests of its directory are there
    have hbody : s.onList (listFor P d K).bodyLines K x =
        s.onList (listFor P d' K).bodyLines K x := by
      by_cases hs : s = .relist K
      · subst hs
        have hall : Ran P Clean R overwrite (.relist K :: ss) d d' := .cons h hsite hrest
        have hd' := hall.site hr.site
        rw [listFor_lines_congr
          (hall.compiled_tests naming_clean hr.txt hr.site hK fun s hs n => ?_)
          (compiled_sources naming_clean hr.sited hr.site hd' hall.apart hK)
          (hr.includes d' hd' hall.grows hall.apart)]
        rcases List.mem_cons.mp hs with rfl | hs
        · simp
        · exact hfirst s hs K n rfl
      · cases s with
        | test N n => rfl
        | declare K' c => rfl
        | relist N =>
          exact (if_neg fun h => hs (by rw [h])).trans (if_neg fun h => hs (by rw [h])).symm
    rw [hbody] at hgoal
    exact hgoal

end Scaffold.Tests
