import Scaffold.Proofs.Tests.Repair

/-!
# Directories in any order

Tests are generated for directories of the sources, one after the other.

* `Leads` -- a path leads to a directory of the sources; `below` are its names;
* `each_generate_follows` -- calls for directories take the steps of their plans;
* `SameChildren` -- texts that declare the same children, in any order, between the
  same lines;
* `order_of_directories` -- **in any order, the calls come to the same**.
-/
namespace Scaffold.Tests

open Artifact (BuildList)
open BuildTree (listsOf)

variable {P : Project} {R : Location} {d d' d₀ : Disk} {overwrite : Bool} {N K : List String}
  {inputs inputs' : List Path} {p q : Path}

/-! ## 1. Calls for directories -/

/-- The names below the source directory on a path. -/
def below (p : Path) : List String := (p.components.drop 1).map Path.Component.text

/-- The path is relative and made of clean names, it begins with the source directory,
and it leads to a directory. -/
structure Leads (P : Project) (R : Location) (d : Disk) (p : Path) : Prop where
  rooted : p.rooted = false
  components : p.components = (P.sourcesAt (below p)).map .name
  clean : ∀ t ∈ below p, Clean t
  directory : d.find? (R ++ P.sourcesAt (below p)) = some .directory

/-- Different paths lead to different directories. -/
theorem Leads.below_ne (hp : Leads P R d p) (hq : Leads P R d q)
    (h : p.components ≠ q.components) : below p ≠ below q :=
  fun heq => h (by rw [hp.components, hq.components, heq])

theorem Leads.of_apart (hP : P.Sited Clean) (h : Leads P R d p) (ha : Apart R d d') :
    Leads P R d' p :=
  ⟨h.rooted, h.components, h.clean, (ha _ (outside_sources hP _)).trans h.directory⟩

/-- The steps of calls for directories. -/
def plans (P : Project) (d : Disk) (inputs : List Path) : List Step :=
  inputs.flatMap fun p => planIn P d (below p)

/-- **Calls for directories take the steps of their plans**, one after the other. -/
theorem each_generate_follows (hP : P.Sited Clean) (h : Site P Clean R d)
    (hinputs : ∀ p ∈ inputs, Leads P R d p) (h₁ : Site P Clean R d') (ha : Apart R d d') :
    (Job.each (generate P overwrite) inputs).Follows
      (Job.each (Step.job P overwrite) (plans P d inputs)) d' := by
  induction inputs generalizing d' with
  | nil => exact .refl _ _
  | cons p inputs ih =>
    have hp := hinputs p List.mem_cons_self
    have hleads := hp.of_apart hP ha
    have hfirst : (generate P overwrite p).Follows
        (Job.each (Step.job P overwrite) (planIn P d' (below p))) d' :=
      generate_follows h₁ naming_clean hP hp.clean hp.rooted hp.components hleads.directory
    rw [planIn_congr h h₁ naming_clean hP ha hp.clean] at hfirst
    unfold plans
    rw [List.flatMap_cons, Job.each_append]
    refine .seq hfirst ((each_ran naming_clean hP h₁
      (planIn_fits h naming_clean hP hp.clean)).mono (fun _ d₂ h₂ => ?_) fun _ _ _ => trivial)
    exact ih (fun q hq => hinputs q (List.mem_cons_of_mem p hq)) (h₂.site h₁) (ha.trans h₂.apart)

theorem plans_fits (hP : P.Sited Clean) (h : Site P Clean R d)
    (hinputs : ∀ p ∈ inputs, Leads P R d p) : ∀ s ∈ plans P d inputs, s.Fits Clean := by
  intro s hs
  obtain ⟨p, hp, hs⟩ := List.mem_flatMap.mp hs
  exact planIn_fits h naming_clean hP (hinputs p hp).clean s hs

/-- In no order a test comes behind the list of its directory. -/
theorem plans_fresh (P : Project) (d : Disk)
    (h : inputs.Pairwise fun p q => below p ≠ below q) : (plans P d inputs).Pairwise Fresh := by
  unfold plans
  rw [List.pairwise_flatMap]
  refine ⟨fun p _ => (planIn_precedes P d (below p)).imp fun h => h.fresh,
    h.imp fun hne s hs s' hs' => ?_⟩
  rintro M n rfl rfl
  obtain ⟨_, ⟨_, _, h⟩ | ⟨_, _, _, h⟩ | h⟩ := mem_planIn.mp hs
  · cases h
  · cases h
  · obtain ⟨_, ⟨m, _, h'⟩ | ⟨_, _, _, h'⟩ | h'⟩ := mem_planIn.mp hs'
    · exact hne ((Step.relist.inj h).symm.trans (Step.test.inj h').1)
    · cases h'
    · cases h'

/-! ## 2. Other orders -/

/-- Where at most one of them has something, lists may come in any order. -/
theorem flatMap_eq_of_perm {α β : Type} {f : α → List β} {as bs : List α} (h : as.Perm bs)
    (halone : as.Pairwise fun a b => f a = [] ∨ f b = []) : as.flatMap f = bs.flatMap f := by
  induction h with
  | nil => rfl
  | cons a _ ih => rw [List.flatMap_cons, List.flatMap_cons, ih (List.pairwise_cons.mp halone).2]
  | swap a b as =>
    have hab := (List.pairwise_cons.mp halone).1 a List.mem_cons_self
    simp only [List.flatMap_cons]
    rcases hab with hnone | hnone <;> simp [hnone]
  | trans h _ ih ih' =>
    exact (ih halone).trans (ih' ((h.pairwise_iff fun hab => hab.symm).mp halone))

/-- A test has the texts of one directory. -/
theorem texts_planIn {T : List String} (h : T.dropLast ≠ N) (P : Project) (R : Location)
    (d d' : Disk) : texts P R d T (planIn P d' N) = [] := by
  refine List.filterMap_eq_nil_iff.mpr fun s hs => ?_
  obtain ⟨_, ⟨n, _, rfl⟩ | ⟨A, c, _, rfl⟩ | rfl⟩ := mem_planIn.mp hs
  · exact if_neg fun heq => h (by rw [← heq, List.dropLast_concat])
  · rfl
  · rfl

/-- **Tests have the same texts in any order.** -/
theorem texts_plans (P : Project) (R : Location) (d d' : Disk) (T : List String)
    (hperm : inputs.Perm inputs') (h : inputs.Pairwise fun p q => below p ≠ below q) :
    texts P R d T (plans P d' inputs) = texts P R d T (plans P d' inputs') := by
  unfold plans
  have hflat : ∀ ps : List Path, texts P R d T (ps.flatMap fun p => planIn P d' (below p)) =
      ps.flatMap fun p => texts P R d T (planIn P d' (below p)) :=
    fun ps => List.filterMap_flatMap
  rw [hflat, hflat]
  refine flatMap_eq_of_perm hperm (h.imp fun {p q} hne => ?_)
  by_cases hp : T.dropLast = below p
  · exact .inr (texts_planIn (fun hq => hne (hp.symm.trans hq)) P R d d')
  · exact .inl (texts_planIn hp P R d d')

/-- The texts declare the same children, and they have the same other lines, but for
empty ones. -/
def SameChildren (t t' : String) : Prop :=
  (∀ c, c ∈ BuildList.declaredSubdirectories t ↔ c ∈ BuildList.declaredSubdirectories t') ∧
    BuildList.remaining t.toList = BuildList.remaining t'.toList

/-- Steps in another order make the same list of a directory, but for the order of its
children. -/
theorem listsAlike_of_mem {body : List (List Char)} {ss ss' : List Step}
    (hmem : ∀ s, s ∈ ss' ↔ s ∈ ss) (h : Holds R d K (listAfter body K ss none))
    (h' : Holds R d' K (listAfter body K ss' none)) : ListsAlike SameChildren R d d' K := by
  have hchildren : ∀ c, c ∈ childrenIn K ss' ↔ c ∈ childrenIn K ss :=
    fun c => by rw [mem_childrenIn, mem_childrenIn, hmem]
  have htouched : Touched K ss' ↔ Touched K ss := by
    simp only [Touched, hmem, Ne, List.eq_nil_iff_forall_not_mem, hchildren]
  rw [listAfter_eq] at h h'
  by_cases ht : Touched K ss
  · rw [if_pos ht] at h
    rw [if_pos (htouched.mpr ht)] at h'
    obtain ⟨t, ht, hw⟩ := h
    obtain ⟨t', ht', hw'⟩ := h'
    refine .inr ⟨t, t', ht, ht', fun c => ?_, ?_⟩
    · rw [BuildList.mem_declaredSubdirectories, BuildList.mem_declaredSubdirectories,
        hw.declared, hw'.declared, BuildTree.mem_addAll, BuildTree.mem_addAll, hchildren]
    · rw [hw.remaining, hw'.remaining]
      simp only [hmem]
  · rw [if_neg ht] at h
    rw [if_neg (htouched.not.mpr ht)] at h'
    exact .inl ⟨h, h'⟩

/-- **In any order, calls for directories come to the same.** In a project without
excludes, with clean names, where the test tree has no lists at first: when tests are
generated for different directories of the sources, one after the other, there are the
same files in any order, and of these only lists may differ, in the order of their
children and in empty lines. -/
theorem order_of_directories (hP : P.Sited Clean) (hex : ∀ p, P.excludes p = false)
    (htxt : "txt" ∉ P.config.sourceExtensions) (h₀ : Site P Clean R d₀)
    (hnone : ∀ K, listsOf R d₀ K = none) (hnamed : P.IncludesNamed Bare d₀)
    (hincludes : P.IncludesApart Clean R d₀) (hinputs : ∀ p ∈ inputs, Leads P R d₀ p)
    (hdistinct : inputs.Pairwise fun p q => p.components ≠ q.components)
    (hperm : inputs.Perm inputs')
    (hdone : ((Job.each (generate P overwrite) inputs).run d₀).value = .ok ())
    (hdone' : ((Job.each (generate P overwrite) inputs').run d₀).value = .ok ()) :
    AlikeBut SameChildren R ((Job.each (generate P overwrite) inputs).run d₀).disk
      ((Job.each (generate P overwrite) inputs').run d₀).disk := by
  have hr : Regular P R d₀ := regular_of_named hP hex htxt h₀ hnamed hincludes
  have hinputs' : ∀ p ∈ inputs', Leads P R d₀ p := fun p hp => hinputs p (hperm.mem_iff.mpr hp)
  have hbelow : inputs.Pairwise fun p q => below p ≠ below q :=
    hdistinct.imp_of_mem fun hp hq hne => (hinputs _ hp).below_ne (hinputs _ hq) hne
  have hbelow' : inputs'.Pairwise fun p q => below p ≠ below q :=
    (hperm.pairwise_iff fun h => h.symm).mp hbelow
  have hfits := plans_fits hP h₀ hinputs
  have hfits' := plans_fits hP h₀ hinputs'
  have hmem : ∀ s, s ∈ plans P d₀ inputs' ↔ s ∈ plans P d₀ inputs := by
    intro s
    unfold plans
    rw [List.mem_flatMap, List.mem_flatMap]
    simp only [hperm.mem_iff]
  have hran : ∀ {ps : List Path}, (∀ p ∈ ps, Leads P R d₀ p) →
      ((Job.each (generate P overwrite) ps).run d₀).value = .ok () →
        Ran P Clean R overwrite (plans P d₀ ps) d₀
          ((Job.each (generate P overwrite) ps).run d₀).disk := by
    intro ps hps hok
    exact (each_generate_follows hP h₀ hps h₀ (.refl R d₀) _ _ _ (each_goes naming_clean hP
      (plans_fits hP h₀ hps) h₀ (.nil d₀) rfl)).of_run_ok hok
  have h := hran hinputs hdone
  have h' := hran hinputs' hdone'
  have hpaired : Paired P R overwrite (plans P d₀ inputs) (plans P d₀ inputs') d₀ d₀
      ((Job.each (generate P overwrite) inputs).run d₀).disk
      ((Job.each (generate P overwrite) inputs').run d₀).disk := by
    refine ⟨hr, hr, .refl R d₀, .refl d₀, h, h', hfits, hmem, fun l => ?_, fun l _ => .inl rfl,
      fun T _ _ => ?_⟩
    · rw [h.directory_iff, h'.directory_iff]
      simp only [hmem]
    · rw [texts_plans P R d₀ d₀ T hperm hbelow]
  refine hpaired.alike fun K hK => ?_
  have hlist := h.holds hr hfits (plans_fresh P d₀ hbelow) hK (x := none) (hnone K)
  have hlist' := h'.holds hr hfits' (plans_fresh P d₀ hbelow') hK (x := none) (hnone K)
  rw [hpaired.bodyLines_eq hK] at hlist'
  exact listsAlike_of_mem hmem hlist hlist'

/-- Directories of the sources in two orders. -/
theorem ancestors_in_any_order :
    AlikeBut SameChildren ["w"]
      ((Job.each (generate Project.usual false) [⟨false, ["src"]⟩, ⟨false, ["src", "a"]⟩,
        ⟨false, ["src", "b"]⟩]).run pairDisk).disk
      ((Job.each (generate Project.usual false) [⟨false, ["src", "b"]⟩, ⟨false, ["src"]⟩,
        ⟨false, ["src", "a"]⟩]).run pairDisk).disk := by
  have hP : Project.usual.Sited Clean := ⟨by decide, by decide⟩
  have hsite : Site Project.usual Clean ["w"] pairDisk := pairDisk_site rfl
  refine order_of_directories hP (fun _ => rfl) (by decide) hsite pairDisk_lists
    (pairDisk_named _) (includesApart_of_names naming_clean hP hsite (by decide) (by decide)
      (by decide)) (fun p hp => ?_) (by decide) (by decide)
    (Job.ok_of_isOk (by decide +kernel)) (Job.ok_of_isOk (by decide +kernel))
  simp only [List.mem_cons, List.not_mem_nil, or_false] at hp
  rcases hp with rfl | rfl | rfl <;> exact ⟨by decide, by decide, by decide, by decide +kernel⟩

/-- **Where the include directory lies below the tests, the order matters**: a list that
is written before it is there does not include it. -/
theorem order_of_directories_matters :
    includeInTests.Sited Clean ∧ (∀ p, includeInTests.excludes p = false) ∧
      "txt" ∉ includeInTests.config.sourceExtensions ∧
      Site includeInTests Clean ["w"] pairDisk ∧ (∀ K, listsOf ["w"] pairDisk K = none) ∧
      includeInTests.IncludesNamed Bare pairDisk ∧
      (∀ p ∈ [(⟨false, ["src", "a"]⟩ : Path), ⟨false, ["src", "b"]⟩],
        Leads includeInTests ["w"] pairDisk p) ∧
      ((Job.each (generate includeInTests false) [⟨false, ["src", "a"]⟩,
        ⟨false, ["src", "b"]⟩]).run pairDisk).value = .ok () ∧
      ((Job.each (generate includeInTests false) [⟨false, ["src", "b"]⟩,
        ⟨false, ["src", "a"]⟩]).run pairDisk).value = .ok () ∧
      ¬AlikeBut SameChildren ["w"]
        ((Job.each (generate includeInTests false) [⟨false, ["src", "a"]⟩,
          ⟨false, ["src", "b"]⟩]).run pairDisk).disk
        ((Job.each (generate includeInTests false) [⟨false, ["src", "b"]⟩,
          ⟨false, ["src", "a"]⟩]).run pairDisk).disk := by
  refine ⟨⟨by decide, by decide⟩, fun _ => rfl, by decide, pairDisk_site rfl, pairDisk_lists,
    pairDisk_named _, fun p hp => ?_, Job.ok_of_isOk (by decide +kernel),
    Job.ok_of_isOk (by decide +kernel), fun h => ?_⟩
  · simp only [List.mem_cons, List.not_mem_nil, or_false] at hp
    rcases hp with rfl | rfl <;> exact ⟨by decide, by decide, by decide, by decide +kernel⟩
  · have hlines := h.textIn_eq (f := fun t => BuildList.remaining t.toList) (fun _ _ h => h.2)
      ["w", "tests", "ut", "a", "CMakeLists.txt"]
    have hfirst : textIn ((Job.each (generate includeInTests false) [⟨false, ["src", "a"]⟩,
        ⟨false, ["src", "b"]⟩]).run pairDisk).disk ["w", "tests", "ut", "a", "CMakeLists.txt"] =
          some (firstList false).text := by
      decide +kernel
    have hlast : textIn ((Job.each (generate includeInTests false) [⟨false, ["src", "b"]⟩,
        ⟨false, ["src", "a"]⟩]).run pairDisk).disk ["w", "tests", "ut", "a", "CMakeLists.txt"] =
          some (firstList true).text := by
      decide +kernel
    rw [hfirst, hlast, Option.map_some, Option.map_some] at hlines
    unfold BuildList.remaining at hlines
    rw [filled_firstList, filled_firstList] at hlines
    revert hlines
    decide +kernel

end Scaffold.Tests
