import Scaffold.Proofs.BuildTree.Written
import Scaffold.Proofs.Tests.Planning

/-!
# What steps come to

What there is after steps one after the other, for one kind of location at a time.

* `Ran.directory_iff` -- the directories: those that were there, and those on the way
  to a file that is written;
* `Ran.elsewhere` -- what no step writes stays, unless it becomes a directory;
* `Ran.test` -- **a test holds the last text or the first one**, depending on whether
  tests are overwritten; `lastly_again`: steps that are taken again change nothing;
* `Ran.same_elsewhere` -- **what is no list is the same** after two runs of the same steps.
-/
namespace Scaffold

open Artifact (BuildList)

section Files

open BuildTree (listsOf)

variable {P : Project} {Q : String → Prop} {R : Location} {d d' : Disk} {T X : List String}
  {old : Option Content} {new : Content}

/-! ## 1. Files below the tests -/

/-- What the file at a place holds, from the root of the tests. -/
def fileAt (R : Location) (d : Disk) (T : List String) : Option Content :=
  match d.find? (R ++ testsAt T) with
  | some (.file c) => some c
  | _ => none

theorem fileAt_eq_some {c : Content} :
    fileAt R d T = some c ↔ d.find? (R ++ testsAt T) = some (.file c) := by
  unfold fileAt
  split
  · rename_i c' he
    rw [he]
    simp
  · rename_i hother
    simp only [reduceCtorEq, false_iff]
    exact hother c

theorem listsOf_eq_fileAt (R : Location) (d : Disk) (K : List String) :
    listsOf R d K = fileAt R d (K ++ [BuildList.fileName]) := by
  have hplace : testsAt (K ++ [BuildList.fileName]) =
      ["tests", "ut"] ++ K ++ [BuildList.fileName] :=
    testsAt_concat K BuildList.fileName
  unfold listsOf fileAt
  exact hplace ▸ rfl

/-- A file that is there or not, but no directory, is what there is. -/
theorem Site.find?_eq (h : Site P Q R d) (hdir : d.find? (R ++ testsAt T) ≠ some .directory) :
    d.find? (R ++ testsAt T) = (fileAt R d T).map .file := by
  unfold fileAt
  cases he : d.find? (R ++ testsAt T) with
  | none => rfl
  | some e =>
    cases e with
    | file c => rfl
    | directory => exact absurd he hdir
    | link t => exact absurd he (h.linkless _ t)

theorem Filed.fileAt_here (h : Filed R (testsAt T) old new d d') :
    fileAt R d T = old ∧ fileAt R d' T = some new := by
  refine ⟨?_, fileAt_eq_some.mpr h.after⟩
  unfold fileAt
  rw [h.before]
  cases old <;> rfl

/-- Where another file is written, a file stays. -/
theorem Filed.fileAt_other (h : Filed R (testsAt X) old new d d') (hT : T ≠ X) :
    fileAt R d' T = fileAt R d T := by
  have hne : R ++ testsAt T ≠ R ++ testsAt X := by
    intro heq
    exact hT (List.append_cancel_left (List.append_cancel_left heq))
  unfold fileAt
  rcases h.others _ hne with hsame | ⟨hnone, hdir, _⟩
  · rw [hsame]
  · rw [hnone, hdir]

end Files

namespace Tests

variable {P : Project} {Q : String → Prop} {R l : Location} {d d' e' : Disk} {overwrite : Bool}
  {s : Step} {ss : List Step} {K T : List String}

/-! ## 2. Directories -/

/-- The location lies below the root on the way to the file of a step. -/
def OnWay (R : Location) (s : Step) (l : Location) : Prop :=
  ∃ A B, A ≠ [] ∧ B ≠ [] ∧ testsAt s.place = A ++ B ∧ l = R ++ A

/-- After a step there is something where it writes. -/
theorem Did.there (h : Did P R overwrite s d d') : (d'.find? (R ++ testsAt s.place)).isSome := by
  cases h with
  | kept _ h => exact h
  | wrote _ _ hf => exact hf.after ▸ rfl
  | declared _ hf => exact hf.after ▸ rfl
  | relisted _ hf => exact hf.after ▸ rfl

/-- The directories after a step. -/
theorem Took.directory_iff (h : Took P R overwrite s d d') (hd' : d'.Grounded) :
    d'.find? l = some .directory ↔
      d.find? l = some .directory ∨ (P.excludes s.file = false ∧ OnWay R s l) := by
  rcases h with ⟨hex, rfl⟩ | ⟨hex, hdid⟩
  · simp [hex]
  · rw [and_iff_right hex]
    rcases hdid.filed with rfl | ⟨old, new, hf⟩
    · -- what is kept lies in directories
      refine ⟨.inl, fun hl => hl.elim id ?_⟩
      rintro ⟨A, B, _, hB, hplace, rfl⟩
      obtain ⟨e, he⟩ := Option.isSome_iff_exists.mp hdid.there
      rw [hplace, ← List.append_assoc] at he
      exact hd'.above hB he
    · exact hf.directory_iff hd'

/-- **The directories after steps** are those that were there, and those on the way
to what is written. -/
theorem Ran.directory_iff (h : Ran P Q R overwrite ss d d') :
    d'.find? l = some .directory ↔ d.find? l = some .directory ∨
      ∃ s ∈ ss, P.excludes s.file = false ∧ OnWay R s l := by
  induction h with
  | nil => simp
  | cons h hsite _ ih =>
    rw [ih, h.directory_iff hsite.grounded, or_assoc, List.exists_mem_cons_iff]

/-! ## 3. What no step writes -/

theorem Took.elsewhere (h : Took P R overwrite s d d')
    (hs : P.excludes s.file = false → l ≠ R ++ testsAt s.place)
    (hdir : d'.find? l ≠ some .directory) : d'.find? l = d.find? l := by
  rcases h.filed with rfl | ⟨hex, _, _, hf⟩
  · rfl
  · exact hf.elsewhere (hs hex) hdir

/-- **What no step writes stays**, unless it becomes a directory. -/
theorem Ran.elsewhere (h : Ran P Q R overwrite ss d d')
    (hss : ∀ s ∈ ss, P.excludes s.file = false → l ≠ R ++ testsAt s.place)
    (hdir : d'.find? l ≠ some .directory) : d'.find? l = d.find? l := by
  induction h with
  | nil => rfl
  | cons h _ hrest ih =>
    rw [ih (fun s hs => hss s (List.mem_cons_of_mem _ hs)) hdir]
    exact h.elsewhere (hss _ List.mem_cons_self) fun hd₁ => hdir (hrest.grows.directory hd₁)

/-! ## 4. Tests -/

/-- The text that a step has for the test at a place. -/
def Step.textFor (P : Project) (R : Location) (d : Disk) (T : List String) : Step → Option String
  | .test N n =>
    if N ++ [testFile n] = T then
      match d.find? (R ++ (P.sourcesAt N ++ [n])) with
      | some (.file c) => some (testText P N n c)
      | _ => none
    else none
  | _ => none

/-- The texts that steps have for the test at a place. -/
def texts (P : Project) (R : Location) (d : Disk) (T : List String) (ss : List Step) :
    List String := ss.filterMap (Step.textFor P R d T)

/-- What a test holds after texts for it: the last one if tests are overwritten,
otherwise what it held, or the first text. -/
def lastly (overwrite : Bool) (old : Option Content) (ts : List String) : Option Content :=
  if overwrite then (ts.getLast?.map .text).or old else old.or (ts.head?.map .text)

theorem lastly_append (o : Option Content) (ts ts' : List String) :
    lastly overwrite (lastly overwrite o ts) ts' = lastly overwrite o (ts ++ ts') := by
  unfold lastly
  cases overwrite with
  | true =>
    rw [if_pos rfl, if_pos rfl, if_pos rfl, List.getLast?_append, Option.map_or, Option.or_assoc]
  | false =>
    rw [if_neg (by simp), if_neg (by simp), if_neg (by simp), List.head?_append, Option.map_or,
      Option.or_assoc]

/-- **Texts that come again change nothing.** -/
theorem lastly_again (o : Option Content) {before ts : List String} (h : before <+: ts) :
    lastly overwrite (lastly overwrite o before) ts = lastly overwrite o ts := by
  cases before with
  | nil => rw [lastly_append, List.nil_append]
  | cons t before =>
    obtain ⟨rest, rfl⟩ := h
    unfold lastly
    cases overwrite with
    | true =>
      have hlast : (t :: before ++ rest).getLast? =
          some ((t :: before ++ rest).getLast (by simp)) :=
        List.getLast?_eq_some_getLast (by simp)
      rw [if_pos rfl, if_pos rfl, if_pos rfl, hlast]
      rfl
    | false => cases o <;> simp

/-- Texts depend on the headers only. -/
theorem texts_congr (hP : P.Sited Q) (h : Apart R d d') (T : List String) (ss : List Step) :
    texts P R d' T ss = texts P R d T ss := by
  unfold texts
  refine List.filterMap_congr fun s _ => ?_
  cases s with
  | test N n => simp only [Step.textFor, h.sources hP N n]
  | declare K c => rfl
  | relist N => rfl

/-- What a step makes of a test. -/
theorem Took.test (hd : Site P Q R d) (h : Took P R overwrite s d d')
    (hT : ∀ K, T ≠ K ++ [BuildList.fileName]) (hex : P.excludes ⟨false, testsAt T⟩ = false)
    (hdir : d'.find? (R ++ testsAt T) ≠ some .directory) :
    fileAt R d' T = lastly overwrite (fileAt R d T) (texts P R d T [s]) := by
  have hnothing : ∀ o : Option Content, lastly overwrite o [] = o := by
    intro o
    cases overwrite <;> simp [lastly]
  have hother : ∀ {N : List String} {n : String}, T ≠ N ++ [testFile n] →
      texts P R d T [.test N n] = [] := by
    intro N n hne
    simp [texts, Step.textFor, hne.symm]
  rcases h with ⟨hskip, rfl⟩ | ⟨_, hdid⟩
  · -- what is excluded is not this test
    have hnone : texts P R d' T [s] = [] := by
      cases s with
      | test N n =>
        refine hother ?_
        rintro rfl
        exact absurd (hex.symm.trans hskip) (by simp)
      | declare K c => rfl
      | relist N => rfl
    rw [hnone, hnothing]
  · cases hdid with
    | @kept N n _ ho hthere =>
      by_cases hne : T = N ++ [testFile n]
      · subst hne
        rw [hd.find?_eq hdir] at hthere
        obtain ⟨c, hc⟩ := Option.isSome_iff_exists.mp (by simpa using hthere)
        rw [hc, ho]
        simp [lastly]
      · rw [hother hne, hnothing]
    | @wrote N n _ _ c old hc ho hf =>
      by_cases hne : T = N ++ [testFile n]
      · subst hne
        obtain ⟨hbefore, hafter⟩ := hf.fileAt_here
        have htextFor : Step.textFor P R d (N ++ [testFile n]) (.test N n) =
            some (testText P N n c) := by
          simp only [Step.textFor, hc, if_true]
        have htext : texts P R d (N ++ [testFile n]) [.test N n] = [testText P N n c] :=
          List.filterMap_cons_some htextFor
        rw [hbefore, hafter, htext]
        rcases ho with rfl | rfl
        · simp [lastly]
        · cases overwrite <;> simp [lastly]
      · rw [hother hne, hnothing, hf.fileAt_other hne]
    | @declared K c _ _ _ _ _ hf => exact (hf.fileAt_other (hT K)).trans (hnothing _).symm
    | @relisted N _ _ _ _ hf => exact (hf.fileAt_other (hT N)).trans (hnothing _).symm

/-- **A test holds the last text for it, or the first one.** -/
theorem Ran.test (hP : P.Sited Q) (hd : Site P Q R d) (h : Ran P Q R overwrite ss d d')
    (hT : ∀ K, T ≠ K ++ [BuildList.fileName]) (hex : P.excludes ⟨false, testsAt T⟩ = false)
    (hdir : d'.find? (R ++ testsAt T) ≠ some .directory) :
    fileAt R d' T = lastly overwrite (fileAt R d T) (texts P R d T ss) := by
  induction h with
  | nil => cases overwrite <;> simp [lastly, texts]
  | @cons s ss d d₁ d' h hsite hrest ih =>
    rw [ih hsite hdir, h.test hd hT hex fun hd₁ => hdir (hrest.grows.directory hd₁),
      texts_congr hP h.apart, lastly_append]
    unfold texts
    rw [← List.filterMap_append, List.singleton_append]

/-! ## 5. Two runs of the same steps -/

/-- **Where no list is written, two runs of the same steps leave the same**, if they begin
alike where they do not write and have the same texts for tests. -/
theorem Ran.same_elsewhere {e : Disk} {ss' : List Step} (hP : P.Sited Q)
    (h : Ran P Q R overwrite ss d d') (h' : Ran P Q R overwrite ss' e e') (hd : Site P Q R d)
    (he : Site P Q R e) (ha : Apart R d e) (hmem : ∀ s, s ∈ ss' ↔ s ∈ ss)
    (hdir : e'.find? l = some .directory ↔ d'.find? l = some .directory)
    (helse : (∀ s ∈ ss, P.excludes s.file = false → l ≠ R ++ testsAt s.place) →
      e.find? l = d.find? l ∨ e.find? l = some .directory)
    (htests : ∀ T, l = R ++ testsAt T → (∀ K, T ≠ K ++ [BuildList.fileName]) →
      d'.find? l ≠ some .directory → lastly overwrite (fileAt R e T) (texts P R d T ss') =
        lastly overwrite (fileAt R d T) (texts P R d T ss))
    (hl : ∀ s ∈ ss, P.excludes s.file = false → ∀ K, s.place = K ++ [BuildList.fileName] →
      l ≠ R ++ testsAt s.place) : e'.find? l = d'.find? l := by
  by_cases hd' : d'.find? l = some .directory
  · rw [hd', hdir, hd']
  have he' : e'.find? l ≠ some .directory := fun hl' => hd' (hdir.mp hl')
  by_cases hplace : ∃ s ∈ ss, P.excludes s.file = false ∧ l = R ++ testsAt s.place
  · obtain ⟨s, hs, hex, rfl⟩ := hplace
    have hT : ∀ K, s.place ≠ K ++ [BuildList.fileName] := fun K heq => hl s hs hex K heq rfl
    rw [(h.site hd).find?_eq hd', (h'.site he).find?_eq he', h.test hP hd hT hex hd',
      h'.test hP he hT hex he', texts_congr hP ha, htests _ rfl hT hd']
  · have hnone : ∀ s ∈ ss, P.excludes s.file = false → l ≠ R ++ testsAt s.place :=
      fun s hs hex heq => hplace ⟨s, hs, hex, heq⟩
    rw [h.elsewhere hnone hd', h'.elsewhere (fun s hs => hnone s ((hmem s).mp hs)) he']
    exact (helse hnone).resolve_right fun hdir' => he' (h'.grows.directory hdir')

end Tests

end Scaffold
