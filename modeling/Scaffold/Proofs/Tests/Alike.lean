import Scaffold.Proofs.Tests.Lists

/-!
# Runs that come to the same

Two runs of the same steps, from disks that may differ where these steps write, leave
disks with the same files, of which only the lists may differ.

* `AlikeBut` -- disks that are the same but for lists, and how these may differ;
* `Paired` -- two such runs, with what has to be known of them;
* `Paired.same_elsewhere` -- **what is no list is the same**, and so are the lines of
  their own that lists have;
* `Paired.alike` -- **the disks are alike** if the lists are.
-/
namespace Scaffold.Tests

open Artifact (BuildList)
open BuildTree (listsOf includeDirsAt)

/-- There is the same on both disks, but for lists with texts that are alike. -/
def AlikeBut (same : String → String → Prop) (R : Location) (d d' : Disk) : Prop :=
  ∀ l, d'.find? l = d.find? l ∨ ∃ K t t', l = R ++ testsAt (K ++ [BuildList.fileName]) ∧
    d.find? l = some (.file (.text t)) ∧ d'.find? l = some (.file (.text t')) ∧ same t t'

/-- The text of the file at a location. -/
def textIn (d : Disk) (l : Location) : Option String :=
  match d.find? l with
  | some (.file (.text t)) => some t
  | _ => none

theorem textIn_of_find? {d : Disk} {l : Location} {t : String}
    (h : d.find? l = some (.file (.text t))) : textIn d l = some t := by
  unfold textIn
  rw [h]

/-- What texts that are alike have in common is the same on both disks. -/
theorem AlikeBut.textIn_eq {α : Type} {same : String → String → Prop} {R : Location}
    {d d' : Disk} (h : AlikeBut same R d d') {f : String → α}
    (hf : ∀ t t', same t t' → f t = f t') (l : Location) :
    (textIn d' l).map f = (textIn d l).map f := by
  unfold textIn
  rcases h l with hsame | ⟨K, t, t', _, ht, ht', hsame⟩
  · rw [hsame]
  · rw [ht, ht']
    exact congrArg some (hf t t' hsame).symm

/-- The list of a directory is missing on both disks, or holds texts that are alike. -/
def ListsAlike (same : String → String → Prop) (R : Location) (d d' : Disk) (K : List String) :
    Prop :=
  (listsOf R d K = none ∧ listsOf R d' K = none) ∨
    ∃ t t', listsOf R d K = some (.text t) ∧ listsOf R d' K = some (.text t') ∧ same t t'

/-- Two runs of the same steps in a regular project. They leave the same directories,
they begin alike where they do not write, and they leave the same texts in tests. -/
structure Paired (P : Project) (R : Location) (overwrite : Bool) (ss ss' : List Step)
    (d₀ e d d' : Disk) : Prop where
  regular : Regular P R d₀
  regular' : Regular P R e
  apart : Apart R d₀ e
  grows : d₀.Grows e
  ran : Ran P Clean R overwrite ss d₀ d
  ran' : Ran P Clean R overwrite ss' e d'
  fits : ∀ s ∈ ss, s.Fits Clean
  mem : ∀ s, s ∈ ss' ↔ s ∈ ss
  directories : ∀ l, d'.find? l = some .directory ↔ d.find? l = some .directory
  elsewhere : ∀ l, (∀ s ∈ ss, l ≠ R ++ testsAt s.place) →
    e.find? l = d₀.find? l ∨ e.find? l = some .directory
  tests : ∀ T, d.find? (R ++ testsAt T) ≠ some .directory →
    (∀ K, T ≠ K ++ [BuildList.fileName]) → lastly overwrite (fileAt R e T) (texts P R d₀ T ss') =
      lastly overwrite (fileAt R d₀ T) (texts P R d₀ T ss)

variable {P : Project} {R l : Location} {d d' d₀ e : Disk} {overwrite : Bool}
  {ss ss' : List Step} {same : String → String → Prop} {K : List String}

theorem Paired.site (h : Paired P R overwrite ss ss' d₀ e d d') :
    Site P Clean R d ∧ Site P Clean R d' :=
  ⟨h.ran.site h.regular.site, h.ran'.site h.regular'.site⟩

/-- **Where no list is written, both runs leave the same.** -/
theorem Paired.same_elsewhere (h : Paired P R overwrite ss ss' d₀ e d d')
    (hl : ∀ s ∈ ss, ∀ K, s.place = K ++ [BuildList.fileName] → l ≠ R ++ testsAt s.place) :
    d'.find? l = d.find? l := by
  refine h.ran.same_elsewhere h.regular.sited h.ran' h.regular.site h.regular'.site h.apart h.mem
    (h.directories l) (fun hnone => h.elsewhere l fun s hs => hnone s hs (h.regular.excludes _))
    (fun T heq hT hdir => ?_) fun s hs _ => hl s hs
  subst heq
  exact h.tests T hdir hT

/-- A directory has the same files to compile on both disks. -/
theorem Paired.bodyLines_eq (h : Paired P R overwrite ss ss' d₀ e d d')
    (hK : ∀ t ∈ K, Clean t) : (listFor P d' K).bodyLines = (listFor P d K).bodyLines := by
  obtain ⟨hd, hd'⟩ := h.site
  have htests := compiled_tests_congr naming_clean h.regular.txt hd hd' hK fun l hl =>
    h.same_elsewhere fun s _ M hplace heq => hl M (hplace ▸ heq)
  have hincludes : includeDirsAt P d' = includeDirsAt P d :=
    (h.regular.includes d' hd' (h.grows.trans h.ran'.grows) (h.apart.trans h.ran'.apart)).trans
      (h.regular.includes d hd h.ran.grows h.ran.apart).symm
  exact listFor_lines_congr htests (compiled_sources naming_clean h.regular.sited hd hd'
    (h.ran.apart.symm.trans (h.apart.trans h.ran'.apart)) hK) hincludes

/-- **Two runs of the same steps leave disks that are alike**, if the lists are. -/
theorem Paired.alike (h : Paired P R overwrite ss ss' d₀ e d d')
    (hlists : ∀ K, (∀ t ∈ K, Clean t) → ListsAlike same R d d' K) : AlikeBut same R d d' := by
  obtain ⟨hd, hd'⟩ := h.site
  intro l
  by_cases hlist : ∃ s ∈ ss, ∃ K, s.place = K ++ [BuildList.fileName] ∧ l = R ++ testsAt s.place
  · obtain ⟨s, hs, K, hplace, rfl⟩ := hlist
    have hK : ∀ t ∈ K, Clean t := by
      intro t ht
      exact (h.fits s hs).place naming_clean t (by rw [hplace]; exact List.mem_append_left _ ht)
    rw [hplace]
    have hfind : ∀ {x : Disk} {c : Content}, listsOf R x K = some c →
        x.find? (R ++ testsAt (K ++ [BuildList.fileName])) = some (.file c) := by
      intro x c hc
      rw [listsOf_eq_fileAt] at hc
      exact fileAt_eq_some.mp hc
    rcases hlists K hK with ⟨hnone, hnone'⟩ | ⟨t, t', ht, ht', hsame⟩
    · -- without a list, there is a directory of this name or nothing
      refine .inl ?_
      rw [listsOf_eq_fileAt] at hnone hnone'
      by_cases hdir : d.find? (R ++ testsAt (K ++ [BuildList.fileName])) = some .directory
      · rw [hdir, h.directories, hdir]
      · rw [hd.find?_eq hdir, hd'.find?_eq fun hdir' => hdir ((h.directories _).mp hdir'), hnone,
          hnone']
    · exact .inr ⟨K, t, t', rfl, hfind ht, hfind ht', hsame⟩
  · exact .inl (h.same_elsewhere fun s hs K hplace heq => hlist ⟨s, hs, K, hplace, heq⟩)

end Scaffold.Tests
