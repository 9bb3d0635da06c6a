import Scaffold.Proofs.Outputs.Containment
import Scaffold.Proofs.Path.Ancestors

/-!
# Refusals come before the work

A mistake of the user is found by looking at paths and at the disk, and the looking is
done first.

* `Job.FailsOnly` -- how a job may fail, whatever the disk is like; once the paths are
  found right, **what writes never blames the user** (`generateOne_blameless`,
  `refresh_blameless`, `writeAll_blameless`, `registerChain_blameless`);
* `Job.RefusesFirst` -- when a job blames the user it has done nothing yet;
* `user_errors_come_first` -- so it is with **the call for one mock, for the tests of one
  path and for a chain**; and tests and mocks are never said to lie outside the tests.
-/
namespace Scaffold

open Artifact (BuildList)

namespace Job

variable {α β : Type} {bad bad' : Failure → Prop} {t : Job α} {f : α → Job β} {d : Disk}

/-! ## 1. How jobs fail -/

/-- However the disk is, a failure of the job satisfies the condition. -/
def FailsOnly (bad : Failure → Prop) (t : Job α) : Prop :=
  ∀ d, t.Ends (fun _ _ => True) (fun e _ => bad e) d

/-- The failure is no mistake of the user. -/
def Blameless (t : Job α) : Prop := t.FailsOnly fun e => e.isUserError = false

theorem FailsOnly.mono (h : t.FailsOnly bad) (hbad : ∀ e, bad e → bad' e) : t.FailsOnly bad' :=
  fun d => (h d).mono (fun _ _ h => h) fun e _ => hbad e

theorem FailsOnly.seq (h : t.FailsOnly bad) (hf : ∀ a, (f a).FailsOnly bad) :
    (t >>= f).FailsOnly bad := by
  intro d
  rw [ends_seq]
  exact (h d).mono (fun a d' _ => hf a d') fun _ _ h => h

theorem FailsOnly.each {f : α → Job Unit} {as : List α} (h : ∀ a ∈ as, (f a).FailsOnly bad) :
    (each f as).FailsOnly bad :=
  fun _ => Ends.each (I := fun _ => True) (fun a ha d _ => h a ha d) trivial

theorem failsOnly_pure (a : α) : (pure a : Job α).FailsOnly bad := fun _ => trivial

theorem failsOnly_fail {e : Failure} (h : bad e) : (fail e : Job α).FailsOnly bad := fun _ => h

theorem failsOnly_ofExcept {r : Except Failure α} (h : ∀ e, r = .error e → bad e) :
    (ofExcept r).FailsOnly bad := by
  intro d
  rw [ends_ofExcept]
  split
  · trivial
  · exact h _ rfl

theorem failsOnly_report (p : Path) (o : Outcome) (detail : Option String) :
    (report p o detail).FailsOnly bad := fun _ => trivial

theorem failsOnly_exists (p : Path) : (Job.exists p).FailsOnly bad := fun _ => trivial

theorem failsOnly_kind (p : Path) : (kind p).FailsOnly bad := fun _ => trivial

theorem failsOnly_ownKind (p : Path) : (ownKind p).FailsOnly bad := fun _ => trivial

theorem failsOnly_isFile (p : Path) : (isFile p).FailsOnly bad := fun _ => trivial

theorem failsOnly_isDirectory (p : Path) : (isDirectory p).FailsOnly bad := fun _ => trivial

/-- A refusal of the disk is no mistake of the user. -/
theorem blameless_list (p : Path) : (list p).Blameless := by
  intro d
  rw [ends_list]
  split
  · trivial
  · rfl

/-! ## 2. Jobs that refuse first -/

/-- When the job blames the user it has reported nothing and left the disk as it is. -/
def RefusesFirst (t : Job α) (d : Disk) : Prop :=
  ∀ e, (t.run d).value = .error e → e.isUserError = true →
    (t.run d).report.records = [] ∧ (t.run d).disk = d

theorem Blameless.run (h : t.Blameless) {e : Failure} (he : (t.run d).value = .error e) :
    e.isUserError = false := (h d).of_run_error he

theorem Blameless.refusesFirst (h : t.Blameless) : t.RefusesFirst d := fun _ he hu =>
  absurd ((h.run he).symm.trans hu) (by simp)

/-- A job that only looks. -/
theorem Reads.refusesFirst (h : t.Reads) : t.RefusesFirst d := fun _ _ _ => ⟨h.2.quiet, h.disk⟩

/-- Looking first. -/
theorem RefusesFirst.look (ht : t.Reads)
    (h : t.Ends (fun a _ => (f a).RefusesFirst d) (fun _ _ => True) d) :
    (t >>= f).RefusesFirst d := by
  change (t.bind f).RefusesFirst d
  unfold RefusesFirst
  rw [run_bind]
  split
  · rename_i a ha
    dsimp only
    rw [ht.2.quiet, ht.disk]
    exact h.of_run_ok ha
  · exact fun _ _ _ => ⟨ht.2.quiet, ht.disk⟩

/-- **What comes behind never blames the user.** -/
theorem RefusesFirst.seq (h : t.RefusesFirst d) (hf : ∀ a, (f a).Blameless) :
    (t >>= f).RefusesFirst d := by
  change (t.bind f).RefusesFirst d
  unfold RefusesFirst
  rw [run_bind]
  split
  · rename_i a ha
    intro e he hu
    exact absurd (((hf a).run he).symm.trans hu) (by simp)
  · rename_i e' he'
    intro e he hu
    cases he
    exact h _ he' hu

end Job

variable {P : Project} {d : Disk} {overwrite : Bool}

/-! ## 3. What writes -/

theorem writeArtifact_blameless (artifact : Artifact) (target : Path)
    (parameters : Artifact.Parameters) : (writeArtifact artifact target parameters).Blameless :=
  fun d => (writeArtifact_ends artifact target parameters d).mono (fun _ _ _ => trivial)
    fun _ _ h => h.1

theorem describeHeader_blameless (file : Path) : (describeHeader file).Blameless :=
  fun d => (describeHeader_ends file d).mono (fun _ _ _ => trivial) fun _ _ h => h.1

/-- A chain may be refused, but not while it goes on. -/
theorem BuildTree.registerChain_blameless {leaf testRoot : Path}
    (h : leaf.startsWith testRoot = true) : (registerChain P leaf testRoot).Blameless := by
  unfold registerChain
  rw [if_pos h, declareUpTo_eq]
  exact Job.FailsOnly.each fun x _ d =>
    (declare_ends P x.1 x.2 d).mono (fun _ _ _ => trivial) fun _ _ h => h.1

theorem BuildTree.writeLeaf_blameless (P : Project) (leaf sourceDir : Path) :
    (writeLeaf P leaf sourceDir).Blameless :=
  fun _ => (writeLeaf_ends P leaf sourceDir).mono (fun _ _ _ => trivial) fun _ _ h => h.1

namespace Tests

/-- **Where a header has a test directory, its test is not refused.** -/
theorem generateOne_blameless {header T : Path} (hT : testDirOf P header = .ok T) :
    (generateOne P overwrite header).Blameless := by
  rw [generateOne_eq hT]
  split
  · exact Job.failsOnly_report _ _ _
  · refine Job.FailsOnly.seq (Job.failsOnly_exists _) fun there => ?_
    split
    · exact Job.failsOnly_report _ _ _
    · exact Job.FailsOnly.seq (describeHeader_blameless _) fun h =>
        Job.FailsOnly.seq (writeArtifact_blameless _ _ _) fun _ => Job.failsOnly_report _ _ _

/-- **Where a directory has a test directory, its lists are not refused**: the test
directory lies in the root of its tests. -/
theorem refresh_blameless {S T : Path} (hT : relocate S P.config.sourceDir testsDir = .ok T) :
    (refresh P S).Blameless := by
  unfold refresh
  rw [hT]
  change (BuildTree.registerChain P T (testRootOf T) >>= fun _ =>
    BuildTree.writeLeaf P T S).Blameless
  exact Job.FailsOnly.seq (BuildTree.registerChain_blameless (Path.startsWith_testRootOf hT))
    fun _ => BuildTree.writeLeaf_blameless P T S

end Tests

theorem Mocks.writeAll_blameless (keeps : Bool) (parameters : Artifact.Parameters) :
    ∀ files : List (Artifact × Path), (writeAll P keeps parameters files).Blameless
  | [] => Job.failsOnly_pure _
  | (artifact, file) :: rest => by
      have hone : (writeOne P keeps parameters artifact file).Blameless := by
        unfold writeOne
        split
        · exact Job.FailsOnly.seq (Job.failsOnly_report _ _ _) fun _ => Job.failsOnly_pure _
        · refine Job.FailsOnly.seq ?_ fun there => ?_
          · split
            · exact Job.failsOnly_exists _
            · exact Job.failsOnly_pure _
          · split
            · exact Job.FailsOnly.seq (Job.failsOnly_report _ _ _) fun _ => Job.failsOnly_pure _
            · exact Job.FailsOnly.seq (writeArtifact_blameless _ _ _) fun _ =>
                Job.FailsOnly.seq (Job.failsOnly_report _ _ _) fun _ => Job.failsOnly_pure _
      unfold writeAll
      exact Job.FailsOnly.seq hone fun _ =>
        Job.FailsOnly.seq (writeAll_blameless keeps parameters rest) fun _ => Job.failsOnly_pure _

/-! ## 4. Calls that refuse first -/

/-- Looking first, whatever is seen. -/
theorem Job.Reads.refusesFirst_seq {α β : Type} {t : Job α} {f : α → Job β} (ht : t.Reads)
    (hf : ∀ a, (f a).RefusesFirst d) : (t >>= f).RefusesFirst d :=
  .look ht ((Job.ends_grows t d).mono (fun a _ _ => hf a) fun _ _ _ => trivial)

theorem BuildTree.registerChain_refusesFirst (P : Project) (leaf testRoot : Path) (d : Disk) :
    (registerChain P leaf testRoot).RefusesFirst d := by
  by_cases h : leaf.startsWith testRoot = true
  · exact (registerChain_blameless h).refusesFirst
  · unfold registerChain
    rw [if_neg h]
    exact (Job.reads_fail _).refusesFirst

/-- What is written beside a marker comes after all that is looked at. -/
theorem Mocks.generate_refusesFirst (P : Project) (header : Path) (d : Disk) :
    (generate P header).RefusesFirst d := by
  unfold generate
  refine (relative_isReads P header).refusesFirst_seq fun rel => ?_
  split
  · exact (Job.reads_fail _).refusesFirst
  refine (Job.reads_ofExcept _).refusesFirst_seq fun marker =>
    (Job.reads_exists _).refusesFirst_seq fun there => ?_
  split
  · exact Job.Blameless.refusesFirst
      (Job.FailsOnly.seq (Job.failsOnly_report _ _ _) fun _ => Job.failsOnly_pure _)
  refine (Job.reads_isFile _).refusesFirst_seq fun isFile => ?_
  split
  · exact (Job.reads_fail _).refusesFirst
  exact (Tests.describeHeader_isReads _).refusesFirst_seq fun h =>
    (writeAll_blameless _ _ _).refusesFirst

/-- What leads to a file ends in a step. -/
theorem Disk.not_idle_of_file {p : Path} {n : String}
    (h : d.kindAt true (p.child n) = some .file) : Path.idle n = false := by
  have hchild : p.child n = ⟨p.rooted, Path.openEnd p.segments ++ [n]⟩ := by
    unfold Path.child Path.join
    rw [if_neg (by simp)]
  obtain ⟨l, e, hl, he, hkind⟩ := Disk.kindAt_eq_some_iff.mp h
  rw [hchild, Disk.locate_eq_ok_iff, Disk.resolve_eq_ok_iff] at hl
  obtain ⟨k, hk⟩ := hl.2.concat_inv (by simp) (.inr fun _ _ => by simp)
  obtain ⟨m, _, happend⟩ := hk.append
  have hrest := Disk.resolveFrom_eq_ok_iff.mpr hl.2
  rw [happend true [n] (by simp), Disk.resolveFrom_eq_ok_iff] at hrest
  cases hn : Path.idle n with
  | false => rfl
  | true =>
    rw [hrest.idle_inv fun s hs => List.mem_singleton.mp hs ▸ hn, hrest.directory] at he
    cases he
    cases hkind

namespace Tests

variable {S : Path}

theorem headersAt_not_idle {n : String} (h : n ∈ headersAt P d S) : Path.idle n = false := by
  unfold headersAt BuildTree.filesAt at h
  split at h
  · rw [BuildTree.mem_inOrder, List.mem_filter] at h
    exact Disk.not_idle_of_file (by simpa using h.2)
  · cases h

/-- All headers of a directory have their tests in one place. The first of them is refused,
or none is. -/
theorem generateIn_refusesFirst (hS : S.Neat) : (generateIn P overwrite S).RefusesFirst d := by
  unfold generateIn
  refine .look (headersIn_isReads P S) ?_
  refine (headersIn_ends P S d).mono (fun hs d₀ h => ?_) fun _ _ _ => trivial
  obtain ⟨rfl, rfl⟩ := h
  split
  · exact (Job.reads_pure _).refusesFirst
  rename_i hne
  have hheader : ∀ n ∈ headersAt P d₀ S,
      testDirOf P (S.child n) = relocate S P.config.sourceDir testsDir :=
    fun n hn => testDirOf_child P hS (headersAt_not_idle hn)
  cases hT : relocate S P.config.sourceDir testsDir with
  | ok T =>
    refine Job.Blameless.refusesFirst (Job.FailsOnly.seq ?_ fun _ => refresh_blameless hT)
    refine Job.FailsOnly.each fun header hmem => ?_
    obtain ⟨n, hn, rfl⟩ := List.mem_map.mp hmem
    exact generateOne_blameless ((hheader n hn).trans hT)
  | error e =>
    obtain ⟨n, ns, hns⟩ := List.exists_cons_of_ne_nil fun h : headersAt P d₀ S = [] =>
      hne (by rw [h]; rfl)
    have hfirst : generateOne P overwrite (S.child n) = .fail e :=
      generateOne_outside ((hheader n (by rw [hns]; exact List.mem_cons_self)).trans hT)
    rw [hns, List.map_cons]
    change (((generateOne P overwrite (S.child n)).bind _).bind _).RefusesFirst d₀
    rw [hfirst]
    exact (Job.reads_fail e).refusesFirst

theorem generate_refusesFirst (P : Project) (overwrite : Bool) (input : Path) (d : Disk) :
    (generate P overwrite input).RefusesFirst d := by
  unfold generate
  refine .look (relative_isReads P input) ?_
  refine (Path.relative_neat P input d).mono (fun rel _ hrel => ?_) fun _ _ _ => trivial
  refine (Job.reads_kind _).refusesFirst_seq fun kind => ?_
  split
  · exact generateIn_refusesFirst hrel.1
  · split
    · -- the test and the lists have one directory
      cases hT : testDirOf P rel with
      | ok T =>
        exact Job.Blameless.refusesFirst
          (Job.FailsOnly.seq (generateOne_blameless hT) fun _ => refresh_blameless hT)
      | error e =>
        rw [generateOne_outside hT]
        exact (Job.reads_fail e).refusesFirst
    · exact (Job.reads_fail _).refusesFirst
  · exact (Job.reads_fail _).refusesFirst

end Tests

/-! ## 5. Tests and mocks lie inside the tests -/

/-- A failure that does not say that something lies outside the root of the tests. -/
def Failure.Inside (e : Failure) : Prop := ∀ p testRoot, e ≠ .outsideTestTree p testRoot

theorem Job.Blameless.inside {α : Type} {t : Job α} (h : t.Blameless) :
    t.FailsOnly Failure.Inside := by
  refine h.mono fun e he p testRoot heq => ?_
  rw [heq] at he
  cases he

theorem relocate_inside {p target : Path} {sourceDir : String} {e : Failure}
    (h : relocate p sourceDir target = .error e) : e.Inside := by
  unfold relocate at h
  split at h
  · cases h
  · cases h
    exact fun _ _ h => by cases h

theorem relative_inside (P : Project) (p : Path) : (P.relative p).FailsOnly Failure.Inside := by
  unfold Project.relative
  split
  · refine Job.FailsOnly.seq (fun _ => trivial) fun root =>
      Job.FailsOnly.seq (fun _ => trivial) fun target => ?_
    split
    · exact Job.failsOnly_pure _
    · exact Job.failsOnly_fail fun _ _ h => by cases h
  · exact Job.failsOnly_pure _

theorem Mocks.generate_inside (P : Project) (header : Path) :
    (generate P header).FailsOnly Failure.Inside := by
  unfold generate
  refine Job.FailsOnly.seq (relative_inside P header) fun rel => ?_
  split
  · exact Job.failsOnly_fail fun _ _ h => by cases h
  refine Job.FailsOnly.seq (Job.failsOnly_ofExcept fun _ h => relocate_inside h) fun marker =>
    Job.FailsOnly.seq (Job.failsOnly_exists _) fun there => ?_
  split
  · exact Job.FailsOnly.seq (Job.failsOnly_report _ _ _) fun _ => Job.failsOnly_pure _
  refine Job.FailsOnly.seq (Job.failsOnly_isFile _) fun isFile => ?_
  split
  · exact Job.failsOnly_fail fun _ _ h => by cases h
  exact Job.FailsOnly.seq (describeHeader_blameless _).inside fun h =>
    (writeAll_blameless _ _ _).inside

namespace Tests

theorem generateOne_inside (P : Project) (overwrite : Bool) (header : Path) :
    (generateOne P overwrite header).FailsOnly Failure.Inside := by
  cases hT : testDirOf P header with
  | ok T => exact (generateOne_blameless hT).inside
  | error e =>
    rw [generateOne_outside hT]
    exact Job.failsOnly_fail (relocate_inside hT)

theorem refresh_inside (P : Project) (S : Path) : (refresh P S).FailsOnly Failure.Inside := by
  cases hT : relocate S P.config.sourceDir testsDir with
  | ok T => exact (refresh_blameless hT).inside
  | error e =>
    unfold refresh
    rw [hT]
    exact Job.failsOnly_fail (relocate_inside hT)

theorem generateIn_inside (P : Project) (overwrite : Bool) (S : Path) :
    (generateIn P overwrite S).FailsOnly Failure.Inside := by
  have hheaders : (headersIn P S).Blameless := fun d =>
    (headersIn_ends P S d).mono (fun _ _ _ => trivial) fun _ _ h => h.1
  unfold generateIn
  refine Job.FailsOnly.seq hheaders.inside fun headers => ?_
  split
  · exact Job.failsOnly_pure _
  · exact Job.FailsOnly.seq (Job.FailsOnly.each fun header _ => generateOne_inside P overwrite header)
      fun _ => refresh_inside P S

theorem generate_inside (P : Project) (overwrite : Bool) (input : Path) :
    (generate P overwrite input).FailsOnly Failure.Inside := by
  unfold generate
  refine Job.FailsOnly.seq (relative_inside P input) fun rel =>
    Job.FailsOnly.seq (Job.failsOnly_kind _) fun kind => ?_
  split
  · exact generateIn_inside P overwrite rel
  · split
    · exact Job.FailsOnly.seq (generateOne_inside P overwrite rel) fun _ => refresh_inside P _
    · exact Job.failsOnly_fail fun _ _ h => by cases h
  · exact Job.failsOnly_fail fun _ _ h => by cases h

theorem generateBelow_inside (P : Project) (overwrite : Bool) : ∀ (n : Nat) (isLink : Bool)
    (S : Path), (generateBelow P overwrite n isLink S).FailsOnly Failure.Inside
  | 0, _, _ => Job.failsOnly_pure _
  | n + 1, isLink, S => by
      unfold generateBelow
      have hbelow : ∀ subs, (Job.each (generateBelow P overwrite n false) subs).FailsOnly
          Failure.Inside := fun subs =>
        Job.FailsOnly.each fun sub _ => generateBelow_inside P overwrite n false sub
      refine Job.FailsOnly.seq (Job.blameless_list _).inside fun entries => ?_
      dsimp only
      split
      · exact hbelow _
      · exact Job.FailsOnly.seq (generateIn_inside P overwrite S) fun _ => hbelow _

theorem generateTree_inside (P : Project) (overwrite : Bool) (input : Path) :
    (generateTree P overwrite input).FailsOnly Failure.Inside := by
  unfold generateTree
  refine Job.FailsOnly.seq (relative_inside P input) fun rel =>
    Job.FailsOnly.seq (Job.failsOnly_isDirectory _) fun isDirectory => ?_
  split
  · exact Job.FailsOnly.seq (Job.failsOnly_ownKind _) fun own =>
      generateBelow_inside P overwrite deepest _ rel
  · exact generate_inside P overwrite rel

end Tests

/-! ## 6. All calls -/

namespace Outputs

/-- The call goes through a whole tree. -/
def Call.Walks : Call → Prop
  | .tests (.tree _ _) => True
  | _ => False

theorem Call.refusesFirst (P : Project) (call : Call) (h : ¬call.Walks) (d : Disk) :
    (call.job P).RefusesFirst d := by
  cases call with
  | mock header => exact (Mocks.generate_refusesFirst P header d).seq fun _ => Job.failsOnly_pure _
  | tests call =>
    cases call with
    | tests overwrite input => exact Tests.generate_refusesFirst P overwrite input d
    | tree overwrite input => exact absurd trivial h
  | register leaf testRoot => exact BuildTree.registerChain_refusesFirst P leaf testRoot d
  | relist leaf sourceDir => exact (BuildTree.writeLeaf_blameless P leaf sourceDir).refusesFirst

theorem Call.inside (P : Project) (call : Call) (h : call.Generates) :
    (call.job P).FailsOnly Failure.Inside := by
  cases call with
  | mock header => exact (Mocks.generate_inside P header).seq fun _ => Job.failsOnly_pure _
  | tests call =>
    cases call with
    | tests overwrite input => exact Tests.generate_inside P overwrite input
    | tree overwrite input => exact Tests.generateTree_inside P overwrite input
  | register leaf testRoot => exact h.elim
  | relist leaf sourceDir => exact h.elim

/-- **Mistakes of the user are found before any work.** A call that is no walk through a tree
and fails by a mistake of the user has reported nothing, and the disk is as it was. And
no call for mocks or tests, a walk through a tree included, fails because something lies
outside the root of the tests. -/
theorem user_errors_come_first (P : Project) (call : Call) (d : Disk) :
    (¬call.Walks → ∀ e, ((call.job P).run d).value = .error e → e.isUserError = true →
      ((call.job P).run d).report.records = [] ∧ ((call.job P).run d).disk = d) ∧
    (call.Generates → ∀ p testRoot,
      ((call.job P).run d).value ≠ .error (.outsideTestTree p testRoot)) := by
  refine ⟨fun h => Call.refusesFirst P call h d, fun h p testRoot he => ?_⟩
  exact ((Call.inside P call h) d).of_run_error he p testRoot rfl

/-- The test of a header that does not lie in the source directory. -/
def strayTest : Call := .tests (.tests false ⟨false, ["other", "y.h"]⟩)

/-- It is refused, and nothing was done. The reason is not that it lies outside the tests. -/
theorem stray_test_refused :
    (∃ e, ((strayTest.job Project.usual).run strayDisk).value = .error e ∧ e.isUserError = true ∧
      ((strayTest.job Project.usual).run strayDisk).report.records = [] ∧
      ((strayTest.job Project.usual).run strayDisk).disk = strayDisk) ∧
    ∀ p testRoot, ((strayTest.job Project.usual).run strayDisk).value ≠
      .error (.outsideTestTree p testRoot) := by
  obtain ⟨hfirst, hinside⟩ := user_errors_come_first Project.usual strayTest strayDisk
  have hvalue : ((strayTest.job Project.usual).run strayDisk).value =
      .error (.outsideSourceTree ⟨false, ["other"]⟩ "src") := by decide +kernel
  exact ⟨⟨_, hvalue, rfl, hfirst id _ hvalue rfl⟩, hinside trivial⟩

end Outputs

end Scaffold
