import Scaffold.Proofs.Tests.Steps

/-!
# The steps that a call will take

Which steps a call takes is settled before the first one: it depends on the source
tree only, and no step touches that.

* `planIn`, `planBelow`, `planTree` -- the steps for a directory, for a tree, and
  for whatever a tree call is given;
* `planBelow_congr` -- **plans are the same where the sources are**;
* `generateIn_follows`, `generateTree_follows` -- **a call does what the steps of
  its plan do**, one after the other;
* `planBelow_precedes` -- no test is written behind the list of its directory, and
  nothing is declared in a list before that list is written.
-/
namespace Scaffold.Tests

open Artifact (BuildList)

variable {P : Project} {Q : String → Prop} {R : Location} {d d' : Disk} {overwrite : Bool}
  {N : List String} {n c : String} {s : Step}

/-! ## 1. Plans -/

/-- The declarations on the way up from a directory, given in reverse. -/
def chainFrom : List String → List Step
  | [] => []
  | c :: above => .declare above.reverse c :: chainFrom above

/-- The declarations on the way up from a directory to the root of the tests. -/
def chain (N : List String) : List Step := chainFrom N.reverse

theorem chain_concat (A : List String) (c : String) :
    chain (A ++ [c]) = .declare A c :: chain A := by
  simp [chain, chainFrom]

/-- What follows the tests of a directory. -/
def planList (N : List String) : List Step := chain N ++ [.relist N]

/-- The steps for the headers right inside a directory. -/
def planIn (P : Project) (d : Disk) (N : List String) : List Step :=
  if (headersAt P d ⟨false, P.sourcesAt N⟩).isEmpty then []
  else (headersAt P d ⟨false, P.sourcesAt N⟩).map (.test N) ++ planList N

/-- The steps for a directory and for those below it, so deep. -/
def planBelow (P : Project) (d : Disk) : Nat → List String → List Step
  | 0, _ => []
  | fuel + 1, N => planIn P d N ++
      (dirsAt P d ⟨false, P.sourcesAt N⟩).flatMap fun c => planBelow P d fuel (N ++ [c])

/-- The steps for a header. -/
def planOne (N : List String) (n : String) : List Step := .test N n :: planList N

/-- The steps for a tree, or for a header in place of it. -/
def planTree (P : Project) (d : Disk) (N : List String) : List Step :=
  if d.kindAt true (P.absolute ⟨false, P.sourcesAt N⟩) == some .directory then
    planBelow P d deepest N
  else
    match N.getLast? with
    | some n => planOne N.dropLast n
    | none => []

/-! ## 2. What plans depend on -/

theorem Site.mem_headersAt (h : Site P Q R d) (hQ : Naming Q) (hP : P.Sited Q)
    (hN : ∀ t ∈ N, Q t) : n ∈ headersAt P d ⟨false, P.sourcesAt N⟩ ↔
      P.isHeader ((⟨false, P.sourcesAt N⟩ : Path).child n) = true ∧
        ∃ c, d.find? (R ++ (P.sourcesAt N ++ [n])) = some (.file c) :=
  h.mem_filesAt (names_sourcesAt hQ hP hN) (by simp [Project.sourcesAt])
    (h.namedIn_sources hQ N n)

/-- The headers of a directory have names as wanted. -/
theorem fits_headersAt (h : Site P Q R d) (hQ : Naming Q) (hP : P.Sited Q) (hN : ∀ t ∈ N, Q t)
    (hn : n ∈ headersAt P d ⟨false, P.sourcesAt N⟩) : Q n := by
  obtain ⟨_, c, hc⟩ := (Site.mem_headersAt h hQ hP hN).mp hn
  exact h.sources N n _ hc

theorem fits_dirsAt (h : Site P Q R d) (hQ : Naming Q) (hP : P.Sited Q) (hN : ∀ t ∈ N, Q t)
    (hc : c ∈ dirsAt P d ⟨false, P.sourcesAt N⟩) : Q c :=
  h.sources N c _ ((h.mem_dirsAt (names_sourcesAt hQ hP hN) (by simp [Project.sourcesAt])).mp hc)

theorem fits_concat (hN : ∀ t ∈ N, Q t) (hc : Q c) : ∀ t ∈ N ++ [c], Q t := by
  intro t ht
  rcases List.mem_append.mp ht with ht | ht
  · exact hN t ht
  · exact List.mem_singleton.mp ht ▸ hc

theorem chain_fits (hN : ∀ t ∈ N, Q t) : ∀ s ∈ chain N, s.Fits Q := by
  induction N using List.reverseRecOn with
  | nil => exact fun s hs => absurd hs List.not_mem_nil
  | append_singleton A c ih =>
    have hA : ∀ t ∈ A, Q t := fun t ht => hN t (List.mem_append_left _ ht)
    intro s hs
    rw [chain_concat] at hs
    rcases List.mem_cons.mp hs with rfl | hs
    · exact ⟨hA, hN c (by simp)⟩
    · exact ih hA s hs

theorem planList_fits (hN : ∀ t ∈ N, Q t) : ∀ s ∈ planList N, s.Fits Q := by
  intro s hs
  rcases List.mem_append.mp hs with hs | hs
  · exact chain_fits hN s hs
  · exact List.mem_singleton.mp hs ▸ hN

theorem planIn_fits (h : Site P Q R d) (hQ : Naming Q) (hP : P.Sited Q) (hN : ∀ t ∈ N, Q t) :
    ∀ s ∈ planIn P d N, s.Fits Q := by
  intro s hs
  unfold planIn at hs
  split at hs
  · cases hs
  · rcases List.mem_append.mp hs with hs | hs
    · obtain ⟨n, hn, rfl⟩ := List.mem_map.mp hs
      exact ⟨hN, fits_headersAt h hQ hP hN hn⟩
    · exact planList_fits hN s hs

theorem planBelow_fits (h : Site P Q R d) (hQ : Naming Q) (hP : P.Sited Q) : ∀ (fuel : Nat)
    {N : List String}, (∀ t ∈ N, Q t) → ∀ s ∈ planBelow P d fuel N, s.Fits Q
  | 0, _, _, _, hs => absurd hs List.not_mem_nil
  | fuel + 1, N, hN, s, hs => by
      rcases List.mem_append.mp hs with hs | hs
      · exact planIn_fits h hQ hP hN s hs
      · obtain ⟨c, hc, hs⟩ := List.mem_flatMap.mp hs
        exact planBelow_fits h hQ hP fuel (fits_concat hN (fits_dirsAt h hQ hP hN hc)) s hs

/-- **The steps for a directory are the same where its headers are.** -/
theorem planIn_congr (h : Site P Q R d) (h' : Site P Q R d') (hQ : Naming Q) (hP : P.Sited Q)
    (hd : Apart R d d') (hN : ∀ t ∈ N, Q t) : planIn P d' N = planIn P d N := by
  have hheaders : headersAt P d' ⟨false, P.sourcesAt N⟩ = headersAt P d ⟨false, P.sourcesAt N⟩ :=
    filesAt_congr h h' (names_sourcesAt hQ hP hN) (by simp [Project.sourcesAt])
      (h.namedIn_sources hQ N) (h'.namedIn_sources hQ N) fun n _ => by
        rw [hd.sources hP N n]
  unfold planIn
  rw [hheaders]

/-- **The steps for a tree are the same where its sources are.** -/
theorem planBelow_congr (h : Site P Q R d) (h' : Site P Q R d') (hQ : Naming Q) (hP : P.Sited Q)
    (hd : Apart R d d') : ∀ (fuel : Nat) {N : List String}, (∀ t ∈ N, Q t) →
      planBelow P d' fuel N = planBelow P d fuel N
  | 0, _, _ => rfl
  | fuel + 1, N, hN => by
      have hdirs : dirsAt P d' ⟨false, P.sourcesAt N⟩ = dirsAt P d ⟨false, P.sourcesAt N⟩ :=
        dirsAt_congr h h' (names_sourcesAt hQ hP hN) (by simp [Project.sourcesAt]) fun n => by
          rw [hd.sources hP N n]
      unfold planBelow
      rw [planIn_congr h h' hQ hP hd hN, hdirs]
      congr 1
      refine List.flatMap_congr fun c hc => ?_
      exact planBelow_congr h h' hQ hP hd fuel (fits_concat hN (fits_dirsAt h hQ hP hN hc))

/-! ## 3. Calls do what they plan -/

/-- Declaring a directory and those above it is its chain. -/
theorem each_chain (hN : ∀ t ∈ testsAt N, Path.IsName t) :
    Job.each (Step.job P overwrite) (chain N) =
      BuildTree.declareUpTo P testsDir ⟨false, testsAt N⟩ := by
  change _ = BuildTree.declareUpTo P ⟨false, ["tests", "ut"]⟩ ⟨false, ["tests", "ut"] ++ N⟩
  induction N using List.reverseRecOn with
  | nil => rw [List.append_nil, BuildTree.declareUpTo_top]; rfl
  | append_singleton A c ih =>
    have hA : ∀ t ∈ testsAt A, Path.IsName t := by
      intro t ht
      refine hN t ?_
      rw [testsAt_concat]
      exact List.mem_append_left _ ht
    rw [chain_concat, BuildTree.declareUpTo_concat P hN, ← ih hA]
    rfl

/-- Refreshing the lists of a directory is what follows its tests in a plan. -/
theorem refresh_eq (hN : ∀ t ∈ N, Path.IsName t) (hP : Path.IsName P.config.sourceDir) :
    refresh P ⟨false, P.sourcesAt N⟩ = Job.each (Step.job P overwrite) (planList N) := by
  have hrelocate : relocate ⟨false, P.sourcesAt N⟩ P.config.sourceDir testsDir =
      .ok ⟨false, testsAt N⟩ := Path.relocate_names hP Path.tests_neat hN
  have hnames : ∀ t ∈ testsAt N, Path.IsName t := by
    intro t ht
    rcases List.mem_append.mp ht with ht | ht
    · exact Path.tests_neat t ht
    · exact hN t ht
  have hroot : testRootOf ⟨false, testsAt N⟩ = testsDir := Path.testRootOf_names hN
  unfold refresh planList
  rw [hrelocate, Job.each_append, each_chain hnames]
  change BuildTree.registerChain P ⟨false, testsAt N⟩ (testRootOf ⟨false, testsAt N⟩) >>= _ = _
  rw [hroot]
  change (BuildTree.registerChain P ⟨false, ["tests", "ut"] ++ N⟩ ⟨false, ["tests", "ut"]⟩).bind
    _ = _
  rw [BuildTree.registerChain_names P hnames]
  rw [Job.each_singleton]
  rfl

/-- **Generating the tests of a directory does what its plan does.** -/
theorem generateIn_follows (h : Site P Q R d) (hQ : Naming Q) (hP : P.Sited Q)
    (hN : ∀ t ∈ N, Q t) : (generateIn P overwrite ⟨false, P.sourcesAt N⟩).Follows
      (Job.each (Step.job P overwrite) (planIn P d N)) d := by
  have hneat : (⟨false, P.sourcesAt N⟩ : Path).Neat :=
    fun t ht => (names_sourcesAt hQ hP hN t ht).not_idle
  have hreads : (headersIn P ⟨false, P.sourcesAt N⟩).Reads :=
    (Job.reads_list _).seq fun _ => (filesIn_reads _ _ _).seq fun _ => Job.reads_pure _
  unfold generateIn
  refine .look hreads ((headersIn_ends P _ d).mono (fun hs d₀ h₀ => ?_)
    fun _ _ _ => trivial)
  obtain ⟨rfl, rfl⟩ := h₀
  refine ⟨rfl, ?_⟩
  unfold planIn
  rw [List.isEmpty_map]
  split
  · exact .refl _ _
  · rw [Job.each_append, refresh_eq (fun t ht => hQ.isName (hN t ht)) (hQ.isName hP.sourceDir),
      Job.each_map, Job.each_map]
    have hone : (fun n => generateOne P overwrite ((⟨false, P.sourcesAt N⟩ : Path).child n)) =
        fun n => (Step.test N n).job P overwrite := by
      refine funext fun n => ?_
      rw [hneat.child]
      rfl
    rw [hone]
    exact .refl _ _

/-- **Generating the tests of a tree does what its plan does**, however deep. -/
theorem generateBelow_follows (hQ : Naming Q) (hP : P.Sited Q) : ∀ (fuel : Nat) {N : List String}
    {d : Disk}, Site P Q R d → (∀ t ∈ N, Q t) →
      (generateBelow P overwrite fuel false ⟨false, P.sourcesAt N⟩).Follows
        (Job.each (Step.job P overwrite) (planBelow P d fuel N)) d
  | 0, _, _, _, _ => .refl _ _
  | fuel + 1, N, d, h, hN => by
      have hneat : (⟨false, P.sourcesAt N⟩ : Path).Neat :=
        fun t ht => (names_sourcesAt hQ hP hN t ht).not_idle
      -- the steps below, on whatever disk the steps before have left
      have hloop : ∀ (cs : List String) (d₁ : Disk),
          (∀ c ∈ cs, c ∈ dirsAt P d ⟨false, P.sourcesAt N⟩) → Site P Q R d₁ → Apart R d d₁ →
          (Job.each (fun c => generateBelow P overwrite fuel false
            ((⟨false, P.sourcesAt N⟩ : Path).child c)) cs).Follows
            (Job.each (Step.job P overwrite)
              (cs.flatMap fun c => planBelow P d fuel (N ++ [c]))) d₁ := by
        intro cs
        induction cs with
        | nil => exact fun _ _ _ _ => .refl _ _
        | cons c cs ih =>
          intro d₁ hcs h₁ hd₁
          have hc : ∀ t ∈ N ++ [c], Q t :=
            fits_concat hN (fits_dirsAt h hQ hP hN (hcs c List.mem_cons_self))
          have hfirst := generateBelow_follows hQ hP fuel h₁ hc
          rw [planBelow_congr h h₁ hQ hP hd₁ fuel hc] at hfirst
          rw [List.flatMap_cons, Job.each_append]
          change Job.Follows (generateBelow P overwrite fuel false _ >>= _) (_ >>= _) d₁
          rw [hneat.child]
          refine .seq hfirst ((each_ran hQ hP h₁ (planBelow_fits h hQ hP fuel hc)).mono
            (fun _ d₂ h₂ => ?_) fun _ _ _ => trivial)
          exact ih d₂ (fun c' hc' => hcs c' (List.mem_cons_of_mem c hc')) (h₂.site h₁)
            (hd₁.trans h₂.apart)
      unfold generateBelow
      refine .look (Job.reads_list _) (Job.ends_list.mpr ?_)
      split
      · rename_i entries hlist
        refine ⟨rfl, ?_⟩
        have hdirs : BuildTree.inOrder ((entries.filter fun e => e.2 == .directory).map Prod.fst) =
            dirsAt P d ⟨false, P.sourcesAt N⟩ := by
          unfold dirsAt
          rw [hlist]
        dsimp only
        rw [if_neg (by simp), hdirs, Job.each_map]
        unfold planBelow
        rw [Job.each_append]
        refine .seq (generateIn_follows h hQ hP hN) ((each_ran hQ hP h
          (planIn_fits h hQ hP hN)).mono (fun _ d₁ h₁ => ?_) fun _ _ _ => trivial)
        exact hloop _ d₁ (fun _ hc => hc) (h₁.site h) h₁.apart
      · trivial

/-- **A call for a directory does what its plan does.** -/
theorem generate_follows {input : Path} (h : Site P Q R d) (hQ : Naming Q) (hP : P.Sited Q)
    (hN : ∀ t ∈ N, Q t) (hr : input.rooted = false)
    (hinput : input.components = (P.sourcesAt N).map .name)
    (hdir : d.find? (R ++ P.sourcesAt N) = some .directory) :
    (generate P overwrite input).Follows (Job.each (Step.job P overwrite) (planIn P d N)) d := by
  have hnames := names_sourcesAt hQ hP hN
  unfold generate
  rw [Path.relative_names P hnames hr hinput]
  refine .value (.look (Job.reads_kind _) (Job.ends_kind.mpr ⟨rfl, ?_⟩))
  rw [h.kindAt hnames (by simp [Project.sourcesAt]), hdir]
  exact generateIn_follows h hQ hP hN

/-- A call for a header does what its plan does. -/
theorem generate_follows_header {input : Path} (h : Site P Q R d) (hQ : Naming Q)
    (hP : P.Sited Q) (hN : ∀ t ∈ N, Q t) (hr : input.rooted = false)
    (hinput : input.components = (P.sourcesAt N).map .name)
    (hdir : d.find? (R ++ P.sourcesAt N) ≠ some .directory) :
    (generate P overwrite input).Follows (Job.each (Step.job P overwrite)
      (match N.getLast? with
        | some n => planOne N.dropLast n
        | none => [])) d := by
  have hnames := names_sourcesAt hQ hP hN
  unfold generate
  rw [Path.relative_names P hnames hr hinput]
  refine .value (.look (Job.reads_kind _) (Job.ends_kind.mpr ⟨rfl, ?_⟩))
  rw [h.kindAt hnames (by simp [Project.sourcesAt])]
  cases he : d.find? (R ++ P.sourcesAt N) with
  | none => exact Job.follows_fail _ _ _
  | some e =>
    cases e with
    | directory => exact absurd he hdir
    | link t => exact Job.follows_fail _ _ _
    | file c =>
      dsimp only [Option.map, Entry.kind]
      split
      · rcases N.eq_nil_or_concat with rfl | ⟨A, n, rfl⟩
        · -- a source directory that is a file has no test directory
          have hparent : (⟨false, [P.config.sourceDir]⟩ : Path).parent? = some ⟨false, []⟩ :=
            Path.Neat.parent? (L := []) fun s hs => (hnames s hs).not_idle
          have hnone : relocate ((⟨false, P.sourcesAt []⟩ : Path).parent?.getD Path.empty)
              P.config.sourceDir testsDir =
                .error (.outsideSourceTree ⟨false, []⟩ P.config.sourceDir) := by
            change relocate ((⟨false, [P.config.sourceDir]⟩ : Path).parent?.getD Path.empty) _ _ = _
            rw [hparent]
            rfl
          unfold generateOne
          rw [hnone]
          exact Job.follows_fail _ _ _
        · rw [List.concat_eq_append] at hnames hN ⊢
          have hparent : (⟨false, P.sourcesAt (A ++ [n])⟩ : Path).parent? =
              some ⟨false, P.sourcesAt A⟩ :=
            Path.Neat.parent? (L := P.sourcesAt A) fun s hs => (hnames s hs).not_idle
          rw [List.getLast?_concat, List.dropLast_concat, hparent, Option.getD_some,
            refresh_eq (fun t ht => hQ.isName (hN t (List.mem_append_left _ ht)))
              (hQ.isName hP.sourceDir)]
          exact .refl _ _
      · exact Job.follows_fail _ _ _

/-- **A tree call does what its plan does.** -/
theorem generateTree_follows {input : Path} (h : Site P Q R d) (hQ : Naming Q) (hP : P.Sited Q)
    (hN : ∀ t ∈ N, Q t) (hr : input.rooted = false)
    (hinput : input.components = (P.sourcesAt N).map .name) :
    (generateTree P overwrite input).Follows
      (Job.each (Step.job P overwrite) (planTree P d N)) d := by
  have hnames := names_sourcesAt hQ hP hN
  have hkind := h.kindAt hnames (by simp [Project.sourcesAt])
  unfold generateTree planTree
  rw [Path.relative_names P hnames hr hinput]
  refine .value (.look (Job.reads_isDirectory _)
    (Job.ends_isDirectory.mpr ⟨rfl, ?_⟩))
  by_cases hdir : d.find? (R ++ P.sourcesAt N) = some .directory
  · have htrue : (d.kindAt true (P.absolute ⟨false, P.sourcesAt N⟩) == some .directory) = true := by
      rw [hkind, hdir]
      rfl
    rw [if_pos htrue, if_pos htrue]
    refine .look (Job.reads_ownKind _) (Job.ends_ownKind.mpr ⟨rfl, ?_⟩)
    rw [h.ownKind hnames (by simp [Project.sourcesAt]) hdir]
    exact generateBelow_follows hQ hP deepest h hN
  · have hfalse : ¬(d.kindAt true (P.absolute ⟨false, P.sourcesAt N⟩) == some .directory) =
        true := by
      rw [hkind]
      intro hd
      refine hdir ?_
      cases he : d.find? (R ++ P.sourcesAt N) with
      | none => rw [he] at hd; cases hd
      | some e =>
        rw [he] at hd
        cases e with
        | directory => rfl
        | file c => cases hd
        | link t => cases hd
    rw [if_neg hfalse, if_neg hfalse]
    exact generate_follows_header h hQ hP hN rfl (Path.components_names hnames) hdir

theorem planOne_fits (hN : ∀ t ∈ N, Q t) (hn : Q n) : ∀ s ∈ planOne N n, s.Fits Q := by
  intro s hs
  rcases List.mem_cons.mp hs with rfl | hs
  · exact ⟨hN, hn⟩
  · exact planList_fits hN s hs

theorem planTree_fits (h : Site P Q R d) (hQ : Naming Q) (hP : P.Sited Q) (hN : ∀ t ∈ N, Q t) :
    ∀ s ∈ planTree P d N, s.Fits Q := by
  unfold planTree
  split
  · exact planBelow_fits h hQ hP deepest hN
  · rcases N.eq_nil_or_concat with rfl | ⟨A, n, rfl⟩
    · exact fun s hs => absurd hs List.not_mem_nil
    · rw [List.concat_eq_append] at hN ⊢
      rw [List.getLast?_concat, List.dropLast_concat]
      exact planOne_fits (fun t ht => hN t (List.mem_append_left _ ht)) (hN n (by simp))

/-- **The steps of a call are the same where the sources are.** -/
theorem planTree_congr (h : Site P Q R d) (h' : Site P Q R d') (hQ : Naming Q) (hP : P.Sited Q)
    (hd : Apart R d d') (hN : ∀ t ∈ N, Q t) : planTree P d' N = planTree P d N := by
  have hnames := names_sourcesAt hQ hP hN
  have hkind : d'.kindAt true (P.absolute ⟨false, P.sourcesAt N⟩) =
      d.kindAt true (P.absolute ⟨false, P.sourcesAt N⟩) := by
    rw [h'.kindAt hnames (by simp [Project.sourcesAt]), h.kindAt hnames
      (by simp [Project.sourcesAt]), hd _ (outside_sources hP N)]
  unfold planTree
  rw [hkind, planBelow_congr h h' hQ hP hd deepest hN]

/-! ## 4. The order of steps -/

/-- No test comes behind the list of its directory. -/
def Fresh (s s' : Step) : Prop := ∀ N n, s = .relist N → s' ≠ .test N n

/-- The second step may come behind the first one. -/
structure Precedes (s s' : Step) : Prop where
  fresh : Fresh s s'
  /-- No list is written behind declarations in it. -/
  led : ∀ K c, s = .declare K c → s' ≠ .relist K

theorem mem_chain : s ∈ chain N ↔ ∃ A c, A ++ [c] <+: N ∧ s = .declare A c := by
  induction N using List.reverseRecOn with
  | nil =>
    refine ⟨fun h => absurd h List.not_mem_nil, ?_⟩
    rintro ⟨A, c, h, _⟩
    simp at h
  | append_singleton B b ih =>
    rw [chain_concat, List.mem_cons, ih]
    constructor
    · rintro (rfl | ⟨A, c, h, rfl⟩)
      · exact ⟨B, b, List.prefix_refl _, rfl⟩
      · exact ⟨A, c, h.trans (List.prefix_append B [b]), rfl⟩
    · rintro ⟨A, c, h, rfl⟩
      rcases List.prefix_concat_iff.mp h with heq | h
      · obtain ⟨rfl, rfl⟩ := List.append_singleton_inj.mp heq
        exact .inl rfl
      · exact .inr ⟨A, c, h, rfl⟩

theorem mem_planList : s ∈ planList N ↔
    (∃ A c, A ++ [c] <+: N ∧ s = .declare A c) ∨ s = .relist N := by
  unfold planList
  rw [List.mem_append, mem_chain, List.mem_singleton]

theorem mem_planIn : s ∈ planIn P d N ↔ headersAt P d ⟨false, P.sourcesAt N⟩ ≠ [] ∧
    ((∃ n ∈ headersAt P d ⟨false, P.sourcesAt N⟩, s = .test N n) ∨
      (∃ A c, A ++ [c] <+: N ∧ s = .declare A c) ∨ s = .relist N) := by
  unfold planIn
  split
  · rename_i hnone
    simp [List.isEmpty_iff.mp hnone]
  · rename_i hsome
    rw [List.mem_append, mem_planList, List.mem_map]
    simp only [List.isEmpty_iff] at hsome
    simp [hsome, eq_comm]

/-- The tests of a directory, its declarations and its list come in order. -/
theorem planDirectory_precedes (N ns : List String) :
    (ns.map (Step.test N) ++ planList N).Pairwise Precedes := by
  have htest : ∀ n s', Precedes (.test N n) s' :=
    fun _ _ => ⟨fun _ _ h => (by cases h), fun _ _ h => (by cases h)⟩
  have hchain : (chain N).Pairwise Precedes := by
    refine List.pairwise_of_forall_mem_list fun s hs s' hs' => ?_
    obtain ⟨A, c, _, rfl⟩ := mem_chain.mp hs
    obtain ⟨A', c', _, rfl⟩ := mem_chain.mp hs'
    exact ⟨fun _ _ h => (by cases h), fun _ _ _ h => (by cases h)⟩
  rw [List.pairwise_append]
  refine ⟨List.pairwise_map.mpr (List.pairwise_of_forall fun _ _ => htest _ _), ?_, ?_⟩
  · unfold planList
    rw [List.pairwise_append]
    refine ⟨hchain, List.pairwise_singleton _ _, fun s hs s' hs' => ?_⟩
    obtain ⟨A, c, hA, rfl⟩ := mem_chain.mp hs
    rw [List.mem_singleton.mp hs']
    refine ⟨fun _ _ h => (by cases h), fun K c' h h' => ?_⟩
    cases h
    cases h'
    have := hA.length_le
    simp at this
  · intro s hs s' _
    obtain ⟨n, _, rfl⟩ := List.mem_map.mp hs
    exact htest n s'

theorem planIn_precedes (P : Project) (d : Disk) (N : List String) :
    (planIn P d N).Pairwise Precedes := by
  unfold planIn
  split
  · exact .nil
  · exact planDirectory_precedes N _

/-- The step belongs to a directory or to those below it, or declares them. -/
def Under (N : List String) : Step → Prop
  | .test M _ => N <+: M
  | .declare M c => N <+: M ∨ M ++ [c] <+: N
  | .relist M => N <+: M

theorem under_of_mem_planIn {M : List String} (hM : N <+: M) (h : s ∈ planIn P d M) :
    Under N s := by
  obtain ⟨_, ⟨n, _, rfl⟩ | ⟨A, c, hA, rfl⟩ | rfl⟩ := mem_planIn.mp h
  · exact hM
  · rcases List.prefix_or_prefix_of_prefix hA hM with h | h
    · exact .inr h
    · rcases List.prefix_concat_iff.mp h with heq | h
      · exact .inr (heq ▸ List.prefix_refl _)
      · exact .inl h
  · exact hM

theorem under_of_mem_planBelow : ∀ (fuel : Nat) {M : List String}, N <+: M →
    s ∈ planBelow P d fuel M → Under N s
  | 0, _, _, h => absurd h List.not_mem_nil
  | fuel + 1, M, hM, h => by
      rcases List.mem_append.mp h with h | h
      · exact under_of_mem_planIn hM h
      · obtain ⟨c, _, h⟩ := List.mem_flatMap.mp h
        exact under_of_mem_planBelow fuel (hM.trans (List.prefix_append M [c])) h

/-- The steps of a directory may come before those below it. -/
theorem precedes_below {s' : Step} (h : s ∈ planIn P d N) (h' : Under (N ++ [c]) s') :
    Precedes s s' := by
  obtain ⟨_, ⟨n, _, rfl⟩ | ⟨A, x, hA, rfl⟩ | rfl⟩ := mem_planIn.mp h
  · exact ⟨fun _ _ h => (by cases h), fun _ _ h => (by cases h)⟩
  · refine ⟨fun _ _ h => (by cases h), fun K y h hs' => ?_⟩
    cases h
    subst hs'
    have hlong := List.IsPrefix.length_le h'
    have := hA.length_le
    simp only [List.length_append, List.length_singleton] at this hlong
    omega
  · refine ⟨fun M n h hs' => ?_, fun _ _ h => (by cases h)⟩
    cases h
    subst hs'
    have hlong := List.IsPrefix.length_le h'
    simp at hlong

/-- The steps of one subdirectory may come before those of another. -/
theorem precedes_beside {c' : String} {s' : Step} (hc : c ≠ c') (h : Under (N ++ [c]) s)
    (h' : Under (N ++ [c']) s') : Precedes s s' := by
  have hone : ∀ {M : List String}, N ++ [c] <+: M → ¬N ++ [c'] <+: M := by
    intro M hM hM'
    have heq := (List.prefix_of_prefix_length_le hM hM' (by simp)).eq_of_length (by simp)
    exact hc (List.append_singleton_inj.mp heq).2
  refine ⟨fun M n hs hs' => ?_, fun K x hs hs' => ?_⟩
  · subst hs
    subst hs'
    exact hone h h'
  · subst hs
    subst hs'
    rcases h with h | h
    · exact hone h h'
    · have hlong := List.IsPrefix.length_le h'
      have := h.length_le
      simp only [List.length_append, List.length_singleton] at this hlong
      omega

/-- **The steps for a tree come in order.** -/
theorem planBelow_precedes (P : Project) (hd : d.Distinct) : ∀ (fuel : Nat) (N : List String),
    (planBelow P d fuel N).Pairwise Precedes
  | 0, _ => .nil
  | fuel + 1, N => by
      unfold planBelow
      rw [List.pairwise_append, List.pairwise_flatMap]
      refine ⟨planIn_precedes P d N, ⟨fun c _ => planBelow_precedes P hd fuel (N ++ [c]), ?_⟩,
        fun s hs s' hs' => ?_⟩
      · refine (nodup_dirsAt P hd _).imp fun hc s hs s' hs' => ?_
        exact precedes_beside hc (under_of_mem_planBelow fuel (List.prefix_refl _) hs)
          (under_of_mem_planBelow fuel (List.prefix_refl _) hs')
      · obtain ⟨c, _, hs'⟩ := List.mem_flatMap.mp hs'
        exact precedes_below hs (under_of_mem_planBelow fuel (List.prefix_refl _) hs')

theorem planTree_precedes (P : Project) (hd : d.Distinct) (N : List String) :
    (planTree P d N).Pairwise Precedes := by
  unfold planTree
  split
  · exact planBelow_precedes P hd deepest N
  · split
    · exact planDirectory_precedes _ [_]
    · exact .nil

end Scaffold.Tests
