import Scaffold.Proofs.Tests.Repair
import Scaffold.Proofs.Tests.Settled

/-!
# Repeated tree runs

* `Settled` -- steps whose work is done, with what has to be known of their project;
* `Calm` -- disks that differ from a settled one by lists that are written again only,
  and `Calm.step`: **the same steps lead to no others**;
* `Settled.again` -- **a second run of the steps and a third one leave the same**;
* `Calm.goes` -- where the work of a step is done, it appends nothing;
* `tree_runs_settle` -- **repeated tree runs reach a fixed point**.
-/
namespace Scaffold

/-- Where nothing is gained or lost, there are the same files. -/
theorem Disk.file_iff_of_grows {d e : Disk} (h : d.Grows e) (h' : e.Grows d) (l : Location) :
    (∃ c, e.find? l = some (.file c)) ↔ ∃ c, d.find? l = some (.file c) := by
  have hone : ∀ {a b : Disk}, a.Grows b → (∃ c, a.find? l = some (.file c)) →
      ∃ c, b.find? l = some (.file c) := by
    rintro a b hg ⟨c, hc⟩
    obtain ⟨x, hx, rfl | ⟨_, hkind⟩⟩ := hg l _ hc
    · exact ⟨c, hx⟩
    · cases x with
      | file c' => exact ⟨c', hx⟩
      | directory => cases hkind
      | link t => cases hkind
  exact ⟨hone h', hone h⟩

theorem Disk.kindAt_eq_of_grows {d e : Disk} (h : d.Grows e) (h' : e.Grows d) (follows : Bool)
    (p : Path) : e.kindAt follows p = d.kindAt follows p :=
  Option.ext fun _ => ⟨Disk.kindAt_grows h', Disk.kindAt_grows h⟩

namespace Tests

open Artifact (BuildList)
open Artifact.BuildList (Shows declaredSubdirectories)
open BuildTree (listsOf)

variable {P : Project} {Q : String → Prop} {R : Location} {d d' d'' e e' : Disk}
  {overwrite : Bool} {s : Step} {ss rest : List Step} {K N : List String} {c : String}
  {input : Path}

/-! ## 1. Settled steps -/

/-- Steps that come in order and whose work is done. -/
structure Settled (P : Project) (R : Location) (ss : List Step) (d : Disk) : Prop where
  sited : P.Sited Fit
  txt : "txt" ∉ P.config.sourceExtensions
  unbroken : Unbroken P R d
  fits : ∀ s ∈ ss, s.Fits Fit
  order : ss.Pairwise Precedes
  stays : ∀ s ∈ ss, Stays P R s d

/-- A run of settled steps leaves them settled. -/
theorem Settled.run (h : Settled P R ss d) (hran : Ran P Fit R overwrite ss d d') :
    Settled P R ss d' :=
  ⟨h.sited, h.txt, hran.unbroken h.unbroken h.fits, h.fits, h.order,
    hran.stays h.sited h.txt h.unbroken h.fits h.order⟩

/-- The list of a directory declares and shows the same when it is written again. -/
theorem Settled.relisted (h : Settled P R ss d) (hK : .relist K ∈ ss)
    (hex : P.excludes (Step.relist K).file = false) :
    ∃ t, listsOf R d K = some (.text t) ∧
      (listFor P d K).subdirectories = declaredSubdirectories t ∧
      declaredSubdirectories (listFor P d K).text = declaredSubdirectories t ∧
      ∀ c, OneLine c → Shows t.toList c → Shows (listFor P d K).text.toList c := by
  have hfits : ∀ t ∈ K, Fit t := h.fits _ hK
  obtain ⟨_, t, b, ht, hcomposed, holder⟩ := h.stays _ hK hex
  have hsub := h.unbroken.site.subdirectories_listFor naming_fit hfits ht
  have hprinted := h.unbroken.printed h.sited hfits
  exact ⟨t, ht, hsub, hcomposed.declared_again holder hsub hprinted,
    fun c hc hshows => hcomposed.shows_again holder hsub hprinted hc hshows⟩

/-! ## 2. Disks on the way of another run -/

/-- What there is differs from a disk by lists that are written again only. -/
structure Calm (P : Project) (R : Location) (ss : List Step) (d e : Disk) : Prop where
  grows : d.Grows e
  back : e.Grows d
  lists : ∀ K, listsOf R e K = listsOf R d K ∨
    (.relist K ∈ ss ∧ P.excludes (Step.relist K).file = false ∧
      listsOf R e K = some (.text (listFor P d K).text))

theorem Calm.refl (P : Project) (R : Location) (ss : List Step) (d : Disk) : Calm P R ss d d :=
  ⟨.refl d, .refl d, fun _ => .inl rfl⟩

/-- Lists are written with the same text on all these disks. -/
theorem Calm.listFor_eq (h : Settled P R ss d) (hc : Calm P R ss d e) (he : Site P Fit R e)
    (hK : .relist K ∈ ss) (hex : P.excludes (Step.relist K).file = false) :
    listFor P e K = listFor P d K := by
  have hd := h.unbroken.site
  have hfits : ∀ t ∈ K, Fit t := h.fits _ hK
  obtain ⟨t, ht, hsub, hagain, _⟩ := h.relisted hK hex
  have hsub' : (listFor P e K).subdirectories = (listFor P d K).subdirectories := by
    rcases hc.lists K with hsame | ⟨_, _, hnew⟩
    · rw [he.subdirectories_listFor naming_fit hfits (hsame.trans ht), hsub]
    · rw [he.subdirectories_listFor naming_fit hfits hnew, hagain, hsub]
  have hcompiled : ∀ {L : List String}, (∀ t ∈ L, Path.IsName t) → L ≠ [] → NamedIn R d L →
      NamedIn R e L →
        BuildTree.compiledAt P e ⟨false, L⟩ = BuildTree.compiledAt P d ⟨false, L⟩ :=
    fun hL hne hn hn' => filesAt_congr hd he hL hne hn hn' fun n _ =>
      Disk.file_iff_of_grows hc.grows hc.back _
  have htests := hcompiled (names_testsAt naming_fit hfits) (by simp [testsAt])
    (hd.namedIn_tests naming_fit K) (he.namedIn_tests naming_fit K)
  have hsources := hcompiled (names_sourcesAt naming_fit h.sited hfits)
    (by simp [Project.sourcesAt]) (hd.namedIn_sources naming_fit K)
    (he.namedIn_sources naming_fit K)
  have hdirs : BuildTree.includeDirsAt P e = BuildTree.includeDirsAt P d := by
    unfold BuildTree.includeDirsAt
    dsimp only
    rw [Disk.kindAt_eq_of_grows hc.grows hc.back]
  unfold listFor BuildTree.planned at hsub' ⊢
  rw [htests, hsources, hdirs]
  dsimp only at hsub'
  rw [hsub']

/-- What is declared shows on all these disks. -/
theorem Calm.shows (h : Settled P R ss d) (hcalm : Calm P R ss d e) (hs : .declare K c ∈ ss)
    (hex : P.excludes (Step.declare K c).file = false) :
    ∃ t, listsOf R e K = some (.text t) ∧ Shows t.toList c := by
  obtain ⟨_, t, ht, hshows⟩ := h.stays _ hs hex
  rcases hcalm.lists K with hsame | ⟨hK, hex', hnew⟩
  · exact ⟨t, hsame.trans ht, hshows⟩
  · obtain ⟨t', ht', _, _, hagain⟩ := h.relisted hK hex'
    rw [ht] at ht'
    cases ht'
    exact ⟨_, hnew, hagain c (h.fits _ hs).2.2.2 hshows⟩

/-- Where there is something already, writing it again gains nothing. -/
theorem Took.back (h : Took P R overwrite s e e') (he : e.Grounded)
    (hthere : P.excludes s.file = false → (e.find? (R ++ testsAt s.place)).isSome) :
    e'.Grows e := by
  rcases h.filed with rfl | ⟨hex, old, new, hf⟩
  · exact .refl _
  obtain ⟨x, hx⟩ := Option.isSome_iff_exists.mp (hthere hex)
  intro l y hy
  by_cases hl : l = R ++ testsAt s.place
  · subst hl
    rw [hf.after] at hy
    cases hy
    rw [hf.before] at hx
    obtain ⟨c, _, rfl⟩ := Option.map_eq_some_iff.mp hx
    exact ⟨_, hf.before.trans hx, .inr ⟨rfl, rfl⟩⟩
  · rcases hf.others l hl with hsame | ⟨hnone, _, A, B, _, hB, hT, rfl⟩
    · exact ⟨y, hsame ▸ hy, .inl rfl⟩
    · -- above what is there nothing is missing
      rw [hT, ← List.append_assoc] at hx
      rw [he.above hB hx] at hnone
      cases hnone

/-- **The steps of the run lead to no other disks.** -/
theorem Calm.step (h : Settled P R ss d) (hc : Calm P R ss d e) (he : Site P Fit R e)
    (hs : s ∈ ss) (ht : Took P R overwrite s e e') : Calm P R ss d e' := by
  have hthere : P.excludes s.file = false → (e.find? (R ++ testsAt s.place)).isSome := by
    intro hex
    obtain ⟨x, hx⟩ := Option.isSome_iff_exists.mp (h.stays s hs hex).1
    obtain ⟨x', hx', _⟩ := hc.grows _ _ hx
    rw [hx']
    rfl
  have hback := ht.back he.grounded hthere
  refine ⟨hc.grows.trans ht.grows, hback.trans hc.back, fun K => ?_⟩
  cases ht.list_cases K with
  | same _ hsame =>
    rw [hsame]
    exact hc.lists K
  | @declared c old new heq hex hdecl hbefore hafter =>
    -- what shows already is not declared again
    subst heq
    obtain ⟨t, ht, hshows⟩ := hc.shows h hs hex
    rcases hdecl.cases_text (hbefore.symm.trans ht) with ⟨_, rfl⟩ | ⟨hnot, _⟩
    · rw [hafter, ← ht]
      exact hc.lists K
    · exact absurd hshows hnot
  | relisted heq hex _ _ hafter =>
    subst heq
    refine .inr ⟨hs, hex, ?_⟩
    rw [hafter, hc.listFor_eq h he hs hex]

theorem Settled.calm (h : Settled P R ss d) (hran : Ran P Fit R overwrite ss d d') :
    Calm P R ss d d' :=
  (hran.keeps (I := fun x => Site P Fit R x ∧ Calm P R ss d x)
    ⟨h.unbroken.site, .refl P R ss d⟩
    fun _ hs _ _ hx ht hsite => ⟨hsite, hx.2.step h hx.1 hs ht⟩).2

/-- **A list that is written again has the text for the disk that the run began with.** -/
theorem Settled.list_eq (h : Settled P R ss d) (hran : Ran P Fit R overwrite ss d d')
    (hK : .relist K ∈ ss) (hex : P.excludes (Step.relist K).file = false) :
    listsOf R d' K = some (.text (listFor P d K).text) := by
  refine hran.settled (I := fun x => Site P Fit R x ∧ Calm P R ss d x)
    (D := fun s x => s = .relist K → listsOf R x K = some (.text (listFor P d K).text))
    (B := fun _ _ => True) ⟨h.unbroken.site, .refl P R ss d⟩
    (List.pairwise_of_forall fun _ _ => trivial)
    (fun _ hs _ _ hx ht hsite => ⟨hsite, hx.2.step h hx.1 hs ht⟩) ?_ ?_ _ hK rfl
  · rintro s hs x x' ⟨hx, hcalm⟩ ht - rfl
    cases ht.list_cases K with
    | same hother _ => exact absurd rfl (hother hex).2
    | declared heq => cases heq
    | relisted _ _ _ _ hafter => rw [hafter, hcalm.listFor_eq h hx hK hex]
  · rintro s _ s' hs' - x x' ⟨hx, hcalm⟩ hdone ht - rfl
    have hlist := hdone rfl
    cases ht.list_cases K with
    | same _ hsame => exact hsame.trans hlist
    | @declared c old new heq hex' hdecl hbefore hafter =>
      subst heq
      obtain ⟨t, ht, hshows⟩ := hcalm.shows h hs' hex'
      rcases hdecl.cases_text (hbefore.symm.trans ht) with ⟨_, rfl⟩ | ⟨hnot, _⟩
      · rw [hafter, ← ht, hlist]
      · exact absurd hshows hnot
    | relisted _ _ _ _ hafter => rw [hafter, hcalm.listFor_eq h hx hK hex]

/-! ## 3. Another run, and one more -/

/-- **A second run of settled steps and a third one leave the same.** -/
theorem Settled.again (h : Settled P R ss d) (hran : Ran P Fit R overwrite ss d d')
    (hagain : Ran P Fit R overwrite ss d' d'') (l : Location) : d''.find? l = d'.find? l := by
  have h' := h.run hran
  have hcalm := h.calm hran
  have hcalm' := h'.calm hagain
  have hd' := h'.unbroken.site
  have hd'' := hagain.site hd'
  by_cases hdir : d'.find? l = some .directory
  · rw [hdir, hcalm'.grows.directory hdir]
  have hdir'' : d''.find? l ≠ some .directory := fun hl => hdir (hcalm'.back.directory hl)
  by_cases hplace : ∃ s ∈ ss, P.excludes s.file = false ∧ l = R ++ testsAt s.place
  · obtain ⟨s, hs, hex, rfl⟩ := hplace
    rw [hd'.find?_eq hdir, hd''.find?_eq hdir'']
    congr 1
    by_cases hlist : ∃ K, s.place = K ++ [BuildList.fileName]
    · obtain ⟨K, hK⟩ := hlist
      rw [hK, ← listsOf_eq_fileAt, ← listsOf_eq_fileAt]
      have hfile : s.file = (Step.relist K).file := by
        unfold Step.file
        rw [hK]
        rfl
      rcases hcalm'.lists K with hsame | ⟨hrelist, _, hnew⟩
      · exact hsame
      · rw [hnew, h.list_eq hran hrelist (hfile ▸ hex),
          hcalm.listFor_eq h hd' hrelist (hfile ▸ hex)]
    · -- a test has the text that it had after the run before
      have hT : ∀ K, s.place ≠ K ++ [BuildList.fileName] := fun K hK => hlist ⟨K, hK⟩
      have hdirs : d'.find? (R ++ testsAt s.place) ≠ some .directory := hdir
      rw [hagain.test h.sited hd' hT hex hdir'', texts_congr h.sited hran.apart,
        hran.test h.sited h.unbroken.site hT hex hdirs, lastly_again _ (List.prefix_refl _)]
  · exact hagain.elsewhere (fun s hs hex heq => hplace ⟨s, hs, hex, heq⟩) hdir''

/-! ## 4. Nothing is appended -/

/-- Nothing was appended to the file of a record. -/
def NotAppended (r : Record) : Prop := r.outcome ≠ .appended

theorem says_generateOne (header : Path) :
    (generateOne P overwrite header).Says NotAppended := by
  unfold generateOne
  refine (Job.says_ofExcept _).seq fun T => ?_
  dsimp only
  split
  · exact ⟨by simp [NotAppended], trivial⟩
  · refine Job.Says.seq ((Job.reads_exists _).2.mono fun _ h => h.elim) fun there => ?_
    split
    · exact ⟨by simp [NotAppended], trivial⟩
    · refine Job.Says.seq ((describeHeader_isReads _).2.mono fun _ h => h.elim) fun _ => ?_
      exact (says_writeArtifact _ _ _).seq fun _ => ⟨by simp [NotAppended], trivial⟩

theorem says_writeLeaf (leaf sourceDir : Path) :
    (BuildTree.writeLeaf P leaf sourceDir).Says NotAppended := by
  unfold BuildTree.writeLeaf
  dsimp only
  split
  · exact ⟨by simp [NotAppended], trivial⟩
  · refine Job.Says.seq ((compiledFiles_reads P _).2.mono fun _ h => h.elim) fun _ => ?_
    refine Job.Says.seq ((compiledFiles_reads P _).2.mono fun _ h => h.elim) fun _ => ?_
    refine Job.Says.seq ((includeDirs_reads P).2.mono fun _ h => h.elim) fun _ => ?_
    refine Job.Says.seq ((declaredAt_reads _).2.mono fun _ h => h.elim) fun _ => ?_
    exact (says_writeArtifact _ _ _).seq fun _ => ⟨by simp [NotAppended], trivial⟩

/-- A declaration that shows already, or that is excluded, appends nothing. -/
theorem declare_goes (directory : Path)
    (h : P.excludes (directory.child BuildList.fileName) = false →
      ∃ t, d.readAt (P.absolute (directory.child BuildList.fileName)) = .ok (.text t) ∧
        Shows t.toList c) :
    (BuildTree.declare P directory c).Goes (fun _ => True) NotAppended (fun _ _ => True) d := by
  unfold BuildTree.declare
  dsimp only
  split
  · exact ⟨by simp [NotAppended], trivial, trivial⟩
  · rename_i hex
    obtain ⟨t, ht, hshows⟩ := h (by simpa using hex)
    rw [Job.goes_seq]
    suffices hread : (Job.tryText _).Ends _ (fun _ _ => True) d from
      (Job.reads_tryText _).goes trivial hread
    rw [Job.ends_tryText, ht]
    change (if _ then _ else _ : Job Unit).Goes _ _ _ d
    rw [if_pos (BuildList.occursIn_iff.mpr hshows)]
    exact ⟨by simp [NotAppended], trivial, trivial⟩

/-- **A step whose work is done appends nothing.** -/
theorem Calm.goes (h : Settled P R ss d) (hc : Calm P R ss d e) (he : Site P Fit R e)
    (hs : s ∈ ss) : (s.job P overwrite).Goes (fun _ => True) NotAppended
      (fun _ e' => Took P R overwrite s e e' ∧ Site P Fit R e') e := by
  have hsay : (s.job P overwrite).Goes (fun _ => True) NotAppended (fun _ _ => True) e := by
    cases s with
    | test N n => exact (says_generateOne _).goes
    | declare K c =>
      have hfits : ∀ t ∈ K, Fit t := (h.fits _ hs).1
      have hfile : (⟨false, testsAt K⟩ : Path).child BuildList.fileName =
          (Step.declare K c).file := testsAt_child (names_testsAt naming_fit hfits) _
      refine declare_goes _ fun hex => ?_
      obtain ⟨t, ht, hshows⟩ := hc.shows h hs (hfile ▸ hex)
      exact ⟨t, (he.readAt_list naming_fit hfits).mpr ht, hshows⟩
    | relist N => exact (says_writeLeaf _ _).goes
  exact (hsay.and_ends (Step.ends naming_fit h.sited he (h.fits s hs))).mono fun _ _ h' => h'.2

/-- Nor do these steps one after the other. -/
theorem Settled.goes (h : Settled P R ss d) (hrest : ∀ s ∈ rest, s ∈ ss)
    (hc : Calm P R ss d e) (he : Site P Fit R e) :
    (Job.each (Step.job P overwrite) rest).Goes (fun _ => True) NotAppended
      (fun _ _ => True) e := by
  induction rest generalizing e with
  | nil => exact ⟨trivial, trivial⟩
  | cons s rest ih =>
    have hs := hrest s List.mem_cons_self
    unfold Job.each
    rw [Job.goes_bind]
    exact (hc.goes h he hs).mono fun _ e' h' =>
      ih (fun s' hs' => hrest s' (List.mem_cons_of_mem s hs')) (hc.step h he hs h'.1) h'.2

/-! ## 5. Tree runs -/

end Tests

/-- The disk after so many runs of a job, each on the disk that the last one left. -/
def Job.after (t : Job Unit) : Nat → Disk → Disk
  | 0, d => d
  | k + 1, d => (t.run (t.after k d)).disk

namespace Tests

/-- What tree runs leave: the same steps each time, settled from the first run on. -/
theorem tree_run (hP : P.Sited Fit) (htxt : "txt" ∉ P.config.sourceExtensions)
    (h₀ : Unbroken P R d) (hN : ∀ t ∈ N, Fit t) (hrooted : input.rooted = false)
    (hinput : input.components = (P.sourcesAt N).map .name) (h : Unbroken P R e)
    (ha : Apart R d e) (hok : ((generateTree P overwrite input).run e).value = .ok ()) :
    Ran P Fit R overwrite (planTree P d N) e ((generateTree P overwrite input).run e).disk ∧
      Settled P R (planTree P d N) ((generateTree P overwrite input).run e).disk := by
  have hran := (generateTree_goes overwrite naming_fit hP h.site hN hrooted hinput).of_run_ok hok
  rw [planTree_congr h₀.site h.site naming_fit hP ha hN] at hran
  have hfits := planTree_fits h₀.site naming_fit hP hN
  have horder := planTree_precedes P h₀.site.distinct N
  exact ⟨hran, hP, htxt, hran.unbroken h hfits, hfits, horder,
    hran.stays hP htxt h hfits horder⟩

/-- **Repeated tree runs reach a fixed point.** Whatever is in the lists at first,
whatever is excluded, and whether or not tests are overwritten: after the second run
there is always the same, and from the second run on nothing is appended. -/
theorem tree_runs_settle {d₀ : Disk} (hP : P.Sited Fit)
    (htxt : "txt" ∉ P.config.sourceExtensions) (h₀ : Site P Fit R d₀)
    (hnamed : P.IncludesNamed OneLine d₀) (hN : ∀ t ∈ N, Fit t) (hrooted : input.rooted = false)
    (hinput : input.components = (P.sourcesAt N).map .name) (k : Nat)
    (hok : ∀ j < k, ((generateTree P overwrite input).run
      ((generateTree P overwrite input).after j d₀)).value = .ok ()) :
    (2 ≤ k → ∀ l, ((generateTree P overwrite input).after k d₀).find? l =
      ((generateTree P overwrite input).after 2 d₀).find? l) ∧
    (1 ≤ k → ∀ r ∈ ((generateTree P overwrite input).run
      ((generateTree P overwrite input).after k d₀)).report.records, r.outcome ≠ .appended) := by
  have hbroken : Unbroken P R d₀ := ⟨h₀, hnamed⟩
  -- each of the runs takes the steps that were planned at first
  have hruns : ∀ j < k, Unbroken P R ((generateTree P overwrite input).after j d₀) ∧
      Apart R d₀ ((generateTree P overwrite input).after j d₀) ∧
      Ran P Fit R overwrite (planTree P d₀ N) ((generateTree P overwrite input).after j d₀)
        ((generateTree P overwrite input).after (j + 1) d₀) ∧
      Settled P R (planTree P d₀ N) ((generateTree P overwrite input).after (j + 1) d₀) := by
    intro j
    induction j with
    | zero =>
      intro hj
      exact ⟨hbroken, .refl R d₀, tree_run hP htxt hbroken hN hrooted hinput hbroken (.refl R d₀)
        (hok 0 hj)⟩
    | succ j ih =>
      intro hj
      obtain ⟨hu, ha, hran, hsettled⟩ := ih (Nat.lt_of_succ_lt hj)
      have ha' := ha.trans hran.apart
      exact ⟨hsettled.unbroken, ha', tree_run hP htxt hbroken hN hrooted hinput hsettled.unbroken
        ha' (hok (j + 1) hj)⟩
  constructor
  · intro hk
    induction k, hk using Nat.le_induction with
    | base => exact fun _ => rfl
    | succ k hk ih =>
      intro l
      obtain ⟨j, rfl⟩ := Nat.exists_eq_add_of_le hk
      have hbefore := (hruns j (by omega)).2.2.2
      have hran := (hruns (j + 1) (by omega)).2.2.1
      have hagain := (hruns (2 + j) (by omega)).2.2.1
      rw [show 2 + j = j + 1 + 1 by omega] at hagain ih ⊢
      rw [hbefore.again hran hagain l]
      exact ih (fun i hi => hok i (by omega)) (fun i hi => hruns i (by omega)) l
  · intro hk
    obtain ⟨j, rfl⟩ := Nat.exists_eq_add_of_le' hk
    obtain ⟨_, ha, hran, hsettled⟩ := hruns j (by omega)
    have hsite := hsettled.unbroken.site
    have hfollows : (generateTree P overwrite input).Follows _ _ :=
      generateTree_follows hsite naming_fit hP hN hrooted hinput
    rw [planTree_congr h₀ hsite naming_fit hP (ha.trans hran.apart) hN] at hfollows
    exact (hfollows _ _ _ (hsettled.goes (fun _ h => h) (.refl P R _ _) hsite)).records

/-- A disk with a header, where the list of the tests has been written by hand. -/
def editedDisk : Disk :=
  ⟨[(["w"], .directory), (["w", "src"], .directory), (["w", "src", "a"], .directory),
    (["w", "src", "a", "x.h"], .file (.text "class X;\n")), (["w", "tests"], .directory),
    (["w", "tests", "ut"], .directory),
    (["w", "tests", "ut", "CMakeLists.txt"], .file (.text "# by hand\n"))]⟩

/-- A project where the test is excluded. -/
def keepsTest : Project :=
  ⟨⟨true, ["w"]⟩, {}, (· == Path.ofText "tests/ut/a/ut_x.cpp")⟩

/-- The tree run for the sources of this project. -/
abbrev keepingRun : Job Unit := generateTree keepsTest true ⟨false, ["src"]⟩

/-- The first run appends to the list, and the next ones do not. -/
theorem edited_list_settles :
    (∃ r ∈ (keepingRun.run editedDisk).report.records, r.outcome = .appended) ∧
    (∀ l, (keepingRun.after 3 editedDisk).find? l = (keepingRun.after 2 editedDisk).find? l) ∧
    ∀ r ∈ (keepingRun.run (keepingRun.after 3 editedDisk)).report.records,
      r.outcome ≠ .appended := by
  have hnames : ∀ l s e, editedDisk.find? (l ++ [s]) = some e → Fit s :=
    (Disk.forall_find?_iff (Q := fun _ s => Fit s)).mpr (by decide)
  have hsite : Site keepsTest Fit ["w"] editedDisk :=
    site_of_names (by decide +kernel) (by decide) rfl rfl
      (Disk.linkless_of_entries (by decide)) hnames
  have hruns : ∀ j < 3, (keepingRun.run (keepingRun.after j editedDisk)).value = .ok () :=
    fun j hj => Job.ok_of_isOk ((by decide +kernel : ∀ j < 3,
      (keepingRun.run (keepingRun.after j editedDisk)).value.isOk = true) j hj)
  have hsettle := tree_runs_settle (N := []) ⟨by decide, by decide⟩ (by decide) hsite
    (fun l s e he _ => (hnames l s e he).2.2) (by decide) rfl (by decide) 3 hruns
  exact ⟨by decide +kernel, hsettle.1 (by decide), hsettle.2 (by decide)⟩

end Tests

end Scaffold
