import Scaffold.Proofs.BuildTree.Exactness
import Scaffold.Proofs.Tests.Generation

/-!
# Whole histories of a project

Tests are generated again and again, for headers, directories and trees, while
the sources are edited in between.

* `Sound` -- the project is laid out well, and its lists are exact;
* `generateOne_sound`, `refresh_sound` -- the steps of a call keep this, unless
  they fail for reasons that are not the user's;
* `Call.sound` -- **every call keeps it**;
* `lists_exact` -- **after any history the lists are exact**, and each is reached
  from the one at the root of the tests.
-/
namespace Scaffold.Tests

open Artifact (BuildList)
open BuildTree (Exact Names listsOf)

variable {P : Project} {R : Location} {d d' : Disk} {N : List String}

/-! ## 1. One directory -/

/-- The project is laid out well, and each list declares just the lists below
it. -/
structure Sound (P : Project) (R : Location) (d : Disk) : Prop where
  laid : Laid P R d
  exact : Exact (listsOf R d)

theorem clean_sources (hP : P.Orderly) (hN : ∀ s ∈ N, Clean s) :
    ∀ s ∈ P.config.sourceDir :: N, Clean s := by
  intro s hs
  rcases List.mem_cons.mp hs with rfl | hs
  · exact hP.sourceDir
  · exact hN s hs

/-- The test directory of a source directory. -/
theorem relocate_sources (hP : P.Orderly) (hN : ∀ s ∈ N, Clean s) :
    relocate ⟨false, P.config.sourceDir :: N⟩ P.config.sourceDir testsDir =
      .ok ⟨false, ["tests", "ut"] ++ N⟩ :=
  Path.relocate_names hP.sourceDir.1 Path.tests_neat fun s hs => (hN s hs).1

/-- **Declaring a test directory and writing its list keeps the lists exact.** -/
theorem refresh_sound (hP : P.Orderly) (h : Sound P R d) (hN : ∀ s ∈ N, Clean s) :
    (refresh P ⟨false, P.config.sourceDir :: N⟩).Ends (fun _ => Sound P R)
      (fun e _ => e.isUserError = false) d := by
  unfold refresh
  rw [Job.ends_seq, Job.ends_ofExcept, relocate_sources hP hN]
  dsimp only
  rw [Path.testRootOf_names fun s hs => (hN s hs).1, Job.ends_seq]
  refine (BuildTree.registerChain_wired hP h.laid hN h.exact).mono (fun _ d₁ h₁ => ?_)
    fun _ _ he => he
  exact (BuildTree.writeLeaf_exact hP h₁.1 hN h₁.2).mono (fun _ d₂ h₂ => ⟨h₂.1, h₂.2⟩)
    fun _ _ he => he

theorem testName_child {n : String} (hP : P.Orderly) (hN : ∀ s ∈ N, Clean s) (hn : Clean n) :
    testName ⟨false, P.config.sourceDir :: N ++ [n]⟩ = "ut_" ++ (Path.cutName n).1 ++ ".cpp" := by
  have hneat : (⟨false, P.config.sourceDir :: N ++ [n]⟩ : Path).Neat := by
    intro s hs
    rcases List.mem_append.mp hs with hs | hs
    · exact (clean_sources hP hN s hs).1.not_idle
    · exact (List.mem_singleton.mp hs ▸ hn).1.not_idle
  unfold testName Path.fileStem?
  rw [hneat.fileName? hn.1.2.2]
  rfl

/-- **Generating a test does not touch any list.** -/
theorem generateOne_sound {n : String} (hP : P.Orderly) (h : Sound P R d)
    (hN : ∀ s ∈ N, Clean s) (hn : Clean n) (overwrite : Bool) :
    (generateOne P overwrite ⟨false, P.config.sourceDir :: N ++ [n]⟩).Ends (fun _ => Sound P R)
      (fun e d' => e.isUserError = true → Sound P R d') d := by
  have hneat : (⟨false, P.config.sourceDir :: N⟩ : Path).Neat :=
    fun s hs => (clean_sources hP hN s hs).1.not_idle
  have hT : testDirOf P ⟨false, P.config.sourceDir :: N ++ [n]⟩ =
      .ok ⟨false, ["tests", "ut"] ++ N⟩ := by
    rw [← relocate_sources hP hN, ← testDirOf_child P hneat hn.1.not_idle, hneat.child]
  have hname := testName_child hP hN hn
  have hclean : Clean (testName ⟨false, P.config.sourceDir :: N ++ [n]⟩) := by
    rw [hname]
    exact clean_testFile hn.bare
  have hnames : ∀ s ∈ ["tests", "ut"] ++ N, Path.IsName s := fun s hs => (clean_below hN s hs).1
  refine ((generateOne_ends P overwrite _ d).kept h.laid.grounded).mono (fun _ d' h' => ?_)
    fun e d' h' hu => ?_
  · obtain ⟨⟨T, hT', hdone⟩, hd', hg⟩ := h'
    rw [hT] at hT'
    cases hT'
    rcases hdone with ⟨rfl, _⟩ | ⟨header, d₁, hd₁, hwrite⟩
    · exact h
    · rw [Path.Neat.child (p := ⟨false, ["tests", "ut"] ++ N⟩)
        fun s hs => (hnames s hs).not_idle] at hd₁ hwrite
      obtain ⟨G, hw⟩ := hd₁.wrote h.laid.grounded h.laid.placed hnames hclean.1 hwrite
      have hlocated := hw.located
      rw [← Disk.absolute_in] at hlocated
      obtain ⟨rfl, ha⟩ := h.laid.added_of_located hg hnames hclean.1 hlocated hw.holds
        (hw.others_located hnames)
      refine ⟨h.laid.added hP hd' hg hN hclean ha, ?_⟩
      -- the name of a test is not that of a list
      have hlists : listsOf R d' = listsOf R d := by
        refine funext fun K => BuildTree.listsOf_congr fun c => hw.file_iff (fun heq => ?_) c
        have heq := List.append_cancel_left heq
        have hlast := (List.append_singleton_inj.mp heq).2
        rw [hname] at hlast
        exact testFile_ne (by decide) hlast.symm
      rw [hlists]
      exact h.exact
  · rw [h'.1 hu]
    exact h

/-- **Generating the tests of a directory keeps the lists exact.** -/
theorem generateIn_sound (hP : P.Orderly) (h : Sound P R d) (hN : ∀ s ∈ N, Clean s)
    (overwrite : Bool) :
    (generateIn P overwrite ⟨false, P.config.sourceDir :: N⟩).Ends (fun _ => Sound P R)
      (fun e d' => e.isUserError = true → Sound P R d') d := by
  have hsources := clean_sources hP hN
  have hneat : (⟨false, P.config.sourceDir :: N⟩ : Path).Neat :=
    fun s hs => (hsources s hs).1.not_idle
  have hheaders : ∀ n ∈ headersAt P d ⟨false, P.config.sourceDir :: N⟩, Clean n := by
    intro n hn
    obtain ⟨e, he⟩ := h.laid.find_of_filesAt (fun s hs => (hsources s hs).1) hn
    exact h.laid.sources N n e he
  unfold generateIn
  rw [Job.ends_seq]
  refine (headersIn_ends P _ d).mono (fun headers d₁ h₁ => ?_) fun e d₁ he hu => ?_
  · obtain ⟨rfl, rfl⟩ := h₁
    split
    · exact h
    · rw [Job.ends_seq]
      refine (Job.Ends.each (I := Sound P R) (fun header hmem d₂ h₂ => ?_) h).mono
        (fun _ d₂ h₂ => ?_) fun _ _ he => he
      · obtain ⟨n, hn, rfl⟩ := List.mem_map.mp hmem
        rw [hneat.child]
        exact generateOne_sound hP h₂ hN (hheaders n hn) overwrite
      · exact (refresh_sound hP h₂ hN).ofUser
  · rw [he.1] at hu
    cases hu

/-! ## 2. Calls -/

/-- **A call for a header or a directory keeps the lists exact.** -/
theorem generate_sound {input : Path} {names : List String} (hP : P.Orderly) (h : Sound P R d)
    (hnames : ∀ s ∈ names, Clean s) (hr : input.rooted = false)
    (hinput : input.components = (P.config.sourceDir :: names).map .name) (overwrite : Bool) :
    (generate P overwrite input).Ends (fun _ => Sound P R)
      (fun e d' => e.isUserError = true → Sound P R d') d := by
  have hsources := clean_sources hP hnames
  unfold generate
  rw [Path.relative_names P (fun s hs => (hsources s hs).1) hr hinput, Job.ends_seq,
    Job.ends_pure, Job.ends_seq, Job.ends_kind]
  split
  · exact generateIn_sound hP h hnames overwrite
  · split
    · rw [Job.ends_seq]
      rcases names.eq_nil_or_concat with rfl | ⟨N, n, rfl⟩
      · -- a source directory that is a file has no test directory
        refine (generateOne_ends P overwrite _ d).mono (fun _ d' h' => ?_) fun _ _ h' hu => h' hu ▸ h
        obtain ⟨T, hT, _⟩ := h'
        have hparent : (⟨false, [P.config.sourceDir]⟩ : Path).parent? = some ⟨false, []⟩ :=
          Path.Neat.parent? (L := []) fun s hs => (hsources s hs).1.not_idle
        have hnone : testDirOf P ⟨false, [P.config.sourceDir]⟩ =
            .error (.outsideSourceTree ⟨false, []⟩ P.config.sourceDir) := by
          unfold testDirOf
          rw [hparent]
          rfl
        rw [hnone] at hT
        cases hT
      · rw [List.concat_eq_append] at hnames hsources ⊢
        have hN : ∀ s ∈ N, Clean s := fun s hs => hnames s (List.mem_append_left _ hs)
        have hparent : (⟨false, P.config.sourceDir :: (N ++ [n])⟩ : Path).parent? =
            some ⟨false, P.config.sourceDir :: N⟩ :=
          Path.Neat.parent? (L := P.config.sourceDir :: N)
            fun s hs => (hsources s hs).1.not_idle
        refine (generateOne_sound hP h hN (hnames n (by simp)) overwrite).mono
          (fun _ d₁ h₁ => ?_) fun _ _ h' => h'
        rw [hparent]
        exact (refresh_sound hP h₁ hN).ofUser
    · exact fun _ => h
  · exact fun _ => h

/-- **A walk through a tree keeps the lists exact**, however deep it goes. -/
theorem generateBelow_sound (hP : P.Orderly) (overwrite : Bool) : ∀ (fuel : Nat) (isLink : Bool)
    {N : List String} {d : Disk}, Sound P R d → (∀ s ∈ N, Clean s) →
      (generateBelow P overwrite fuel isLink ⟨false, P.config.sourceDir :: N⟩).Ends
        (fun _ => Sound P R) (fun e d' => e.isUserError = true → Sound P R d') d
  | 0, _, _, _, h, _ => h
  | fuel + 1, isLink, N, d, h, hN => by
      have hsources := clean_sources hP hN
      have hneat : (⟨false, P.config.sourceDir :: N⟩ : Path).Neat :=
        fun s hs => (hsources s hs).1.not_idle
      unfold generateBelow
      rw [Job.ends_seq, Job.ends_list]
      split
      · rename_i entries hlist
        -- the directories that are gone through were there at the beginning
        have hclean : ∀ s ∈ BuildTree.inOrder ((entries.filter fun e => e.2 == .directory).map
            Prod.fst), Clean s := by
          intro s hs
          rw [BuildTree.mem_inOrder] at hs
          obtain ⟨⟨s, k⟩, hmem, rfl⟩ := List.mem_map.mp hs
          obtain ⟨l, hl, _, rfl⟩ := Disk.listAt_eq_ok_iff.mp hlist
          obtain ⟨e, he⟩ := Disk.find?_of_mem_children (List.mem_filter.mp hmem).1
          rw [h.laid.locate_eq (fun t ht => (hsources t ht).1) hl, List.append_assoc] at he
          exact h.laid.sources N s e he
        have hbelow : ∀ d₁, Sound P R d₁ →
            (Job.each (generateBelow P overwrite fuel false)
              ((BuildTree.inOrder ((entries.filter fun e => e.2 == .directory).map Prod.fst)).map
                (⟨false, P.config.sourceDir :: N⟩ : Path).child)).Ends
              (fun _ => Sound P R) (fun e d' => e.isUserError = true → Sound P R d') d₁ := by
          intro d₁ h₁
          refine Job.Ends.each (fun directory hmem d₂ h₂ => ?_) h₁
          obtain ⟨s, hs, rfl⟩ := List.mem_map.mp hmem
          rw [hneat.child]
          refine generateBelow_sound hP overwrite fuel false h₂ fun t ht => ?_
          rcases List.mem_append.mp ht with ht | ht
          · exact hN t ht
          · exact List.mem_singleton.mp ht ▸ hclean s hs
        dsimp only
        split
        · exact hbelow d h
        · rw [Job.ends_seq]
          exact (generateIn_sound hP h hN overwrite).mono (fun _ d₁ h₁ => hbelow d₁ h₁)
            fun _ _ h' => h'
      · exact fun hu => absurd hu (by simp [Failure.isUserError])

/-- A call that generates tests. -/
inductive Call where
  /-- For a header or the headers of a directory. -/
  | tests (overwrite : Bool) (input : Path)
  /-- For a directory and all that are below it, or for a header. -/
  | tree (overwrite : Bool) (input : Path)

/-- What the call does. -/
def Call.job (P : Project) : Call → Job Unit
  | .tests overwrite input => generate P overwrite input
  | .tree overwrite input => generateTree P overwrite input

/-- What the call is for. -/
def Call.input : Call → Path
  | .tests _ input => input
  | .tree _ input => input

/-- The call is for a relative path that begins with the source directory and
goes on with clean names. -/
def Call.Fits (P : Project) (call : Call) : Prop :=
  call.input.rooted = false ∧ ∃ names, (∀ s ∈ names, Clean s) ∧
    call.input.components = (P.config.sourceDir :: names).map .name

/-- **Every call keeps the lists exact**, unless it fails for reasons that are not
the user's. -/
theorem Call.sound (hP : P.Orderly) (h : Sound P R d) {call : Call} (hfits : call.Fits P) :
    (call.job P).Ends (fun _ => Sound P R) (fun e d' => e.isUserError = true → Sound P R d') d := by
  obtain ⟨hr, names, hnames, hinput⟩ := hfits
  cases call with
  | tests overwrite input => exact generate_sound hP h hnames hr hinput overwrite
  | tree overwrite input =>
    have hsources := clean_sources hP hnames
    have hrel : P.relative input = pure ⟨false, P.config.sourceDir :: names⟩ :=
      Path.relative_names P (fun s hs => (hsources s hs).1) hr hinput
    change (generateTree P overwrite input).Ends _ _ d
    unfold generateTree
    rw [hrel, Job.ends_seq, Job.ends_pure, Job.ends_seq, Job.ends_isDirectory]
    split
    · rw [Job.ends_seq, Job.ends_ownKind]
      exact generateBelow_sound hP overwrite deepest _ h hnames
    · exact generate_sound hP h hnames rfl
        (Path.components_names fun s hs => (hsources s hs).1) overwrite

/-! ## 3. Histories -/

/-- Nothing but what lies in the source directory is different. -/
def Edited (P : Project) (R : Location) (d d' : Disk) : Prop :=
  ∀ l, ¬R ++ [P.config.sourceDir] <+: l → d'.find? l = d.find? l

/-- Disks that come about by calls that go well or fail by a mistake of the user,
and by edits of the sources that keep the project laid out well. -/
inductive History (P : Project) (R : Location) (d₀ : Disk) : Disk → Prop
  | start : History P R d₀ d₀
  | call {d : Disk} (call : Call) (h : History P R d₀ d) (hfits : call.Fits P)
      (hvalue : ∀ e, ((call.job P).run d).value = .error e → e.isUserError = true) :
      History P R d₀ ((call.job P).run d).disk
  | edit {d d' : Disk} (h : History P R d₀ d) (hedited : Edited P R d d') (hlaid : Laid P R d') :
      History P R d₀ d'

/-- Edits of the sources do not touch the lists. -/
theorem Edited.lists_eq (hP : P.Orderly) (h : Edited P R d d') : listsOf R d' = listsOf R d := by
  refine funext fun K => BuildTree.listsOf_congr fun c => ?_
  rw [h _ fun hpre => ?_]
  rw [List.prefix_append_right_inj] at hpre
  obtain ⟨rest, hrest⟩ := hpre
  exact hP.apart (List.cons.inj hrest).1

/-- **Every disk of a history is sound.** -/
theorem History.sound {d₀ : Disk} (hP : P.Orderly) (h₀ : Sound P R d₀) (h : History P R d₀ d) :
    Sound P R d := by
  induction h with
  | start => exact h₀
  | call call _ hfits hvalue ih =>
    have hends := call.sound hP ih hfits
    cases hv : ((call.job P).run _).value with
    | ok a => exact hends.of_run_ok hv
    | error e => exact hends.of_run_error hv (hvalue e hv)
  | edit _ hedited hlaid ih =>
    refine ⟨hlaid, ?_⟩
    rw [hedited.lists_eq hP]
    exact ih.exact

/-- The list of a directory is reached from the list at the root of the tests, by
declarations. -/
inductive Reached (v : BuildTree.Lists) : List String → Prop
  | top (h : (v []).isSome) : Reached v []
  | child {L : List String} {x : String} (h : Reached v L) (hx : Names v L x) :
      Reached v (L ++ [x])

/-- Where lists are exact, every list is reached. -/
theorem reached_of_exact {v : BuildTree.Lists} (h : Exact v) {L : List String}
    (hL : (v L).isSome) : Reached v L := by
  induction L using List.reverseRecOn with
  | nil => exact .top hL
  | append_singleton A x ih =>
    have hx : Names v A x := h.complete A x hL
    have hA : (v A).isSome := by
      obtain ⟨t, ht, _⟩ := hx
      rw [ht]
      rfl
    exact .child (ih hA) hx

/-! ## 4. The main result -/

/-- **After any history the lists are exact.** Where a test tree had no lists at
first, each list holds a text whose declarations, each in one line and no more,
are those of just the subdirectories that have a list, and each list is reached
from the list at the root of the tests. -/
theorem lists_exact {d₀ : Disk} (hP : P.Orderly) (h₀ : Laid P R d₀)
    (hnone : ∀ L, listsOf R d₀ L = none) (h : History P R d₀ d) :
    ∀ L c, listsOf R d L = some c →
      (∃ t, c = .text t ∧ (BuildList.declaredSubdirectories t).Nodup ∧
        (∀ x ∈ BuildList.declaredSubdirectories t,
          (BuildList.declarations t.toList).count x = 1) ∧
        ∀ x, x ∈ BuildList.declaredSubdirectories t ↔ (listsOf R d (L ++ [x])).isSome) ∧
      Reached (listsOf R d) L := by
  have hempty : Exact (listsOf R d₀) := by
    refine ⟨fun L c hc => ?_, fun L x hx => ?_, fun L x hx => ?_⟩
    · rw [hnone] at hc
      cases hc
    · obtain ⟨t, ht, _⟩ := hx
      rw [hnone] at ht
      cases ht
    · rw [hnone] at hx
      cases hx
  have hexact := (h.sound hP ⟨h₀, hempty⟩).exact
  intro L c hc
  obtain ⟨t, rfl, htidy⟩ := hexact.texts L c hc
  refine ⟨⟨t, rfl, BuildList.nodup_declaredSubdirectories t, fun x hx => ?_, fun x => ?_⟩,
    reached_of_exact hexact (by rw [hc]; rfl)⟩
  · rw [BuildList.mem_declaredSubdirectories] at hx
    exact List.count_eq_one_of_mem htidy.nodup hx
  · rw [BuildList.mem_declaredSubdirectories]
    constructor
    · exact fun hx => hexact.sound L x ⟨t, hc, hx⟩
    · intro hx
      obtain ⟨t', ht', hx⟩ := hexact.complete L x hx
      rw [hc] at ht'
      cases ht'
      exact hx

/-- A disk with a header in a directory of the sources. -/
def treeDisk : Disk :=
  ⟨[(["w"], .directory), (["w", "src"], .directory), (["w", "src", "fs"], .directory),
    (["w", "src", "fs", "foo.h"], .file (.text "class Foo {};\n"))]⟩

/-- The disk after its test was generated. -/
def treeDone : Disk :=
  (((Call.tests false ⟨false, ["src", "fs"]⟩).job Project.usual).run treeDisk).disk

/-- The list of the directory is declared at the root of the tests. -/
theorem directory_list_reached : (listsOf ["w"] treeDone ["fs"]).isSome = true ∧
    Reached (listsOf ["w"] treeDone) ["fs"] := by
  have hthere : (listsOf ["w"] treeDone ["fs"]).isSome = true := by decide +kernel
  have hnames : ∀ l s e, treeDisk.find? (l ++ [s]) = some e → Clean s :=
    (Disk.forall_find?_iff (Q := fun _ s => Clean s)).mpr (by decide)
  have hlinks : treeDisk.Linkless := Disk.linkless_of_entries (by decide)
  have hlaid : Laid Project.usual ["w"] treeDisk := by
    refine ⟨by decide +kernel, by rfl, by rfl, fun l t hl => ?_, fun L s e he => ?_,
      fun L s e he => ?_⟩
    · exact hlinks _ _ hl rfl
    · rw [← List.append_assoc] at he
      exact hnames _ s e he
    · rw [← List.append_assoc] at he
      exact hnames _ s e he
  have hnone : ∀ L, listsOf ["w"] treeDisk L = none := by
    intro L
    cases hL : listsOf ["w"] treeDisk L with
    | none => rfl
    | some c =>
      rw [BuildTree.listsOf_eq_some, ← List.append_assoc] at hL
      have hother : ∀ l s e, treeDisk.find? (l ++ [s]) = some e → s ≠ BuildList.fileName :=
        (Disk.forall_find?_iff (Q := fun _ s => s ≠ BuildList.fileName)).mpr (by decide)
      exact absurd rfl (hother _ _ _ hL)
  have hvalue : ((((Call.tests false ⟨false, ["src", "fs"]⟩).job Project.usual).run
      treeDisk).value).isOk = true := by decide +kernel
  have hhistory : History Project.usual ["w"] treeDisk treeDone := by
    refine .call (.tests false ⟨false, ["src", "fs"]⟩) .start
      ⟨rfl, ["fs"], by decide, by decide⟩ fun e he => ?_
    rw [he] at hvalue
    cases hvalue
  obtain ⟨c, hc⟩ := Option.isSome_iff_exists.mp hthere
  exact ⟨hthere, (lists_exact ⟨by decide, by decide, by decide, fun _ => rfl⟩ hlaid hnone
    hhistory ["fs"] c hc).2⟩

end Scaffold.Tests
