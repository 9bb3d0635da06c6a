import Scaffold.Proofs.BuildTree.Plans
import Scaffold.Proofs.Command.Runs
import Scaffold.Proofs.Project.Spellings

/-!
# Where a command is run

A command is run in a directory, and its arguments are read from there. Within a project it
does not matter which directory that is, as long as the arguments lead to the same place.

* `firstFile_run`, `ancestors_below` -- the settings are looked for upwards;
* `Inside` -- a directory of a project, with no other settings on the way up to its root;
  `loadProject_inside`: **there the project is the one at the root**;
* `generate_alike` -- targets that lead to the same place are **the same job's work**;
* `run_alike` -- so are whole runs.
-/
namespace Scaffold

variable {d : Disk} {R l : Location} {D D₁ D₂ : Path} {P : Project}

/-! ## 1. Settings above a directory -/

/-- The ancestors of a location below another one come first. -/
theorem Path.ancestors_below {M : List String} (h : d.Stairs (R ++ M)) :
    ∃ first, (Disk.pathOf (R ++ M)).ancestors = first ++ (Disk.pathOf R).ancestors ∧
      ∀ p ∈ first, ∃ A, A ≠ [] ∧ A <+: M ∧ p = Disk.pathOf (R ++ A) := by
  induction M using List.reverseRecOn with
  | nil => exact ⟨[], by rw [List.append_nil]; rfl, fun _ hp => absurd hp List.not_mem_nil⟩
  | append_singleton M s ih =>
    have hneat : (Disk.pathOf (R ++ M ++ [s])).Neat := by
      rw [List.append_assoc]
      exact fun t ht => ((Disk.Stairs.descent (R := []) h).2.1 t ht).not_idle
    obtain ⟨first, hfirst, hbelow⟩ := ih (by
      rw [← List.append_assoc] at h
      exact h.concat_inv.1)
    refine ⟨Disk.pathOf (R ++ (M ++ [s])) :: first, ?_, ?_⟩
    · rw [List.cons_append, ← hfirst, ← List.append_assoc]
      exact Path.ancestors_concat hneat
    · rintro p (_ | ⟨_, hp⟩)
      · exact ⟨M ++ [s], by simp, List.prefix_refl _, rfl⟩
      · obtain ⟨A, hne, hA, rfl⟩ := hbelow p hp
        exact ⟨A, hne, hA.trans (List.prefix_append M [s]), rfl⟩

theorem Job.run_canonical {p : Path} (h : d.locate true p = .ok l) :
    ((Job.canonical p).run d).value = .ok (Disk.pathOf l) := by
  change Except.ok (((d.answer (.canonical p)).1).getD p) = _
  unfold Disk.answer
  dsimp only
  rw [h]
  rfl

namespace Config

/-- **The first file is found** behind paths of none. -/
theorem firstFile_run {before after : List Path} {p : Path}
    (hbefore : ∀ q ∈ before, d.kindAt true q ≠ some .file) (hp : d.kindAt true p = some .file) :
    ((firstFile (before ++ p :: after)).run d).value = .ok (some p) := by
  have hanswer : ∀ q, ((Job.isFile q).run d).value = .ok (d.kindAt true q == some .file) :=
    fun _ => rfl
  induction before with
  | nil =>
    rw [List.nil_append, firstFile, Job.Reads.run_seq (Job.reads_isFile p) (hanswer p), hp]
    rfl
  | cons q before ih =>
    have hq : (d.kindAt true q == some .file) = false := by
      simpa using hbefore q List.mem_cons_self
    rw [List.cons_append, firstFile, Job.Reads.run_seq (Job.reads_isFile q) (hanswer q), hq]
    exact ih fun p hp => hbefore p (List.mem_cons_of_mem q hp)

/-- The settings in a file; the default ones where they cannot be read. -/
def settled (d : Disk) (file : Path) : Config :=
  match ((load file).run d).value with
  | .ok c => c
  | .error _ => {}

end Config

/-! ## 2. Directories of a project -/

/-- The directory is one of the project at a location: on the way up from there no settings
are found before those of the project. -/
structure Inside (d : Disk) (R : Location) (D : Path) : Prop where
  rooted : D.rooted = true
  below : ∃ M, d.locate true D = .ok (R ++ M) ∧ ∀ A, A ≠ [] → A <+: M →
    d.kindAt true ((Disk.pathOf (R ++ A)).child Config.fileName) ≠ some .file

section Inside

variable (hD : Inside d R D)
  (hsettings : d.kindAt true ((Disk.pathOf R).child Config.fileName) = some .file)

include hD hsettings

/-- The settings of a project are found from all of its directories. -/
theorem find_inside :
    ((Config.find D).run d).value = .ok (some ((Disk.pathOf R).child Config.fileName)) := by
  obtain ⟨M, hM, hnone⟩ := hD.below
  obtain ⟨first, hfirst, hbelow⟩ := Path.ancestors_below (Disk.stairs_of_locate hM)
  rw [Config.find, Job.Reads.run_seq (Job.reads_canonical D) (Job.run_canonical hM), hfirst,
    Path.ancestors, List.map_append, List.map_cons]
  refine Config.firstFile_run (fun q hq => ?_) hsettings
  obtain ⟨p, hp, rfl⟩ := List.mem_map.mp hq
  obtain ⟨A, hne, hA, rfl⟩ := hbelow p hp
  exact hnone A hne hA

/-- So are its settings and its root. -/
theorem loadOrDefault_inside : ((Config.loadOrDefault D).run d).value =
    .ok (Config.settled d ((Disk.pathOf R).child Config.fileName), Disk.pathOf R) := by
  obtain ⟨M, hM, -⟩ := hD.below
  have hnames := (Disk.Stairs.descent (R := []) (Disk.stairs_of_locate hM).descent.1).2.1
  have hneat : (Disk.pathOf R).Neat := fun s hs => (hnames s hs).not_idle
  have hparent : ((Disk.pathOf R).child Config.fileName).parent? = some (Disk.pathOf R) := by
    rw [hneat.child]
    exact Path.Neat.parent? (Path.Neat.mk_append hneat (by decide))
  have hload : (((Config.load ((Disk.pathOf R).child Config.fileName)).collect .empty).run d).value =
      .ok (((Config.load ((Disk.pathOf R).child Config.fileName)).run d).value,
        ((Config.load ((Disk.pathOf R).child Config.fileName)).run d).report) :=
    congrArg Ended.value (Job.run_collect _ _ d)
  rw [Config.loadOrDefault, Job.Reads.run_seq (Config.find_reads D) (find_inside hD hsettings)]
  dsimp only
  rw [hparent, Job.Reads.run_seq (Config.load_reads _).collect hload]
  unfold Config.settled
  cases ((Config.load ((Disk.pathOf R).child Config.fileName)).run d).value <;> rfl

/-- **The project is the one at the root**, whichever of its directories it is looked for
in. -/
theorem loadProject_inside : ((Command.loadProject D none).run d).value = Project.make
    (Disk.pathOf R) (Config.settled d ((Disk.pathOf R).child Config.fileName)) := by
  change ((Config.loadOrDefault D >>= fun x => Job.ofExcept (Project.make x.2 x.1)).run d).value = _
  rw [Job.Reads.run_seq (Config.loadOrDefault_reads D) (loadOrDefault_inside hD hsettings)]
  dsimp only
  cases Project.make _ _ <;> rfl

end Inside

/-! ## 3. Targets -/

section Inputs

variable {p q rel : Path} {force : Bool} (hp : ((P.relative p).run d).value = .ok rel)
  (hq : ((P.relative q).run d).value = .ok rel)

include hp hq

/-- Inputs that are the same path of the project have the same tests. -/
theorem Tests.generateTree_alike :
    (Tests.generateTree P force p).run d = (Tests.generateTree P force q).run d := by
  unfold Tests.generateTree
  rw [Job.Reads.run_seq (relative_isReads P p) hp, Job.Reads.run_seq (relative_isReads P q) hq]

/-- They have the same mock. -/
theorem Mocks.generate_alike : (Mocks.generate P p).run d = (Mocks.generate P q).run d := by
  unfold Mocks.generate
  rw [Job.Reads.run_seq (relative_isReads P p) hp, Job.Reads.run_seq (relative_isReads P q) hq]

end Inputs

namespace Command

/-- The path that a target is given by. -/
def Target.path : Target → Path
  | .unitTest path => Path.ofText path
  | .mock header => Path.ofText header

/-- Both targets are tests, or both are mocks. -/
def Target.Alike : Target → Target → Prop
  | .unitTest _, .unitTest _ => True
  | .mock _, .mock _ => True
  | _, _ => False

variable {t₁ t₂ : Target} {L : Location}

/-- **Targets that lead to the same place below the root** are the same work, in whatever
directories they are read. -/
theorem generate_alike (force : Bool) (hroot : d.locate true P.root = .ok R)
    (h₁ : D₁.rooted = true) (h₂ : D₂.rooted = true) (halike : t₁.Alike t₂)
    (hl₁ : d.locate true (D₁.join t₁.path) = .ok (R ++ L))
    (hl₂ : d.locate true (D₂.join t₂.path) = .ok (R ++ L)) :
    (generate P D₁ force t₁).run d = (generate P D₂ force t₂).run d := by
  have hrooted : ∀ {D p : Path}, D.rooted = true → (D.join p).rooted = true := by
    intro D p hD
    unfold Path.join
    split
    · assumption
    · exact hD
  have hrel₁ := relative_located hroot (hrooted h₁) hl₁
  have hrel₂ := relative_located hroot (hrooted h₂) hl₂
  match t₁, t₂ with
  | .unitTest _, .unitTest _ => exact Tests.generateTree_alike hrel₁ hrel₂
  | .mock header₁, .mock header₂ =>
    change ((Mocks.generate P (D₁.join (Target.mock header₁).path)).bind fun _ => Job.done ()).run d =
      ((Mocks.generate P (D₂.join (Target.mock header₂).path)).bind fun _ => Job.done ()).run d
    rw [Job.run_bind, Job.run_bind, Mocks.generate_alike hrel₁ hrel₂]
  | .unitTest _, .mock _ | .mock _, .unitTest _ => exact halike.elim

/-! ## 4. Runs -/

/-- The root of a project with settings is a directory. -/
theorem root_directory (h : d.Stairs R)
    (hsettings : d.kindAt true ((Disk.pathOf R).child Config.fileName) = some .file) :
    d.find? R = some .directory := by
  have hneat : (Disk.pathOf R).Neat :=
    fun s hs => ((Disk.Stairs.descent (R := []) h).2.1 s hs).not_idle
  rw [hneat.child] at hsettings
  have hkind := Disk.kindAt_directory (A := R) (Path.text_rooted_ne rfl) (by simp) hsettings
  obtain ⟨l, e, hl, he, hdir⟩ := Disk.kindAt_eq_some_iff.mp hkind
  cases (Disk.locate_pathOf h).symm.trans hl
  cases e with
  | directory => exact he
  | file | link => cases hdir

/-- **Whichever directory of a project `gen` is run in**, it finds the same project, does the
same work and comes to the same output if its argument leads to the same place. -/
theorem run_alike {words₁ words₂ : List String} {force json : Bool} (colors : Bool)
    (hsettings : d.kindAt true ((Disk.pathOf R).child Config.fileName) = some .file)
    (h₁ : Inside d R D₁) (h₂ : Inside d R D₂)
    (hw₁ : readWish words₁ = .ok (.gen t₁ force json none))
    (hw₂ : readWish words₂ = .ok (.gen t₂ force json none)) (halike : t₁.Alike t₂)
    (hl₁ : d.locate true (D₁.join t₁.path) = .ok (R ++ L))
    (hl₂ : d.locate true (D₂.join t₂.path) = .ok (R ++ L)) :
    ((loadProject D₁ none).run d).value = ((loadProject D₂ none).run d).value ∧
    (∀ P, ((loadProject D₁ none).run d).value = .ok P →
      (generate P D₁ force t₁).run d = (generate P D₂ force t₂).run d) ∧
    (run colors D₁ words₁).run d = (run colors D₂ words₂).run d := by
  obtain ⟨M, hM, -⟩ := h₁.below
  have hroot := Disk.locate_pathOf (Disk.stairs_of_locate hM).descent.1
  have hload := loadProject_inside h₁ hsettings
  have hsame := hload.trans (loadProject_inside h₂ hsettings).symm
  have hwork : ∀ P, ((loadProject D₁ none).run d).value = .ok P →
      (generate P D₁ force t₁).run d = (generate P D₂ force t₂).run d := by
    intro P hP
    have hrootP : P.root = Disk.pathOf R := by
      rw [hload, Project.make] at hP
      cases hglobs : Project.readGlobs _ with
      | error f => rw [hglobs] at hP; cases hP
      | ok globs => rw [hglobs] at hP; cases hP; rfl
    exact generate_alike force (hrootP ▸ hroot) h₁.rooted h₂.rooted halike hl₁ hl₂
  refine ⟨hsame, hwork, ?_⟩
  rw [run, run, hw₁, hw₂]
  dsimp only
  rw [runGen_run, runGen_run, ← hsame]
  split
  · rfl
  · rename_i P hP
    rw [hwork P hP]

/-- **All spellings of an input mean the same**, on any disk on which a project has its
settings in its root. Rooted paths that lead to the same place below the root are the same path
of the project, which is made of names and leads there again. And a run of `gen` from any of
its directories is the same run, in what it does, reports and prints, if its argument leads to
the same place. -/
theorem spellings_alike
    (hsettings : d.kindAt true ((Disk.pathOf R).child Config.fileName) = some .file) :
    (∀ (P : Project) (p q : Path) (L : Location), P.root.components ≠ [] →
      d.locate true P.root = .ok R → p.rooted = true → q.rooted = true →
      d.locate true p = .ok (R ++ L) → d.locate true q = .ok (R ++ L) →
      ∃ r, ((P.relative p).run d).value = .ok r ∧ ((P.relative q).run d).value = .ok r ∧
        (∃ names : List String, r.components = names.map .name) ∧
        d.locate true (P.absolute r) = .ok (R ++ L)) ∧
    (∀ (colors force json : Bool) (D₁ D₂ : Path) (words₁ words₂ : List String) (t₁ t₂ : Target)
      (L : Location), Inside d R D₁ → Inside d R D₂ →
      readWish words₁ = .ok (.gen t₁ force json none) →
      readWish words₂ = .ok (.gen t₂ force json none) → t₁.Alike t₂ →
      d.locate true (D₁.join t₁.path) = .ok (R ++ L) →
      d.locate true (D₂.join t₂.path) = .ok (R ++ L) →
      ((loadProject D₁ none).run d).value = ((loadProject D₂ none).run d).value ∧
      (∀ P, ((loadProject D₁ none).run d).value = .ok P →
        (generate P D₁ force t₁).run d = (generate P D₂ force t₂).run d) ∧
      (run colors D₁ words₁).run d = (run colors D₂ words₂).run d) := by
  refine ⟨fun P p q L hsteps hroot hp hq hlp hlq => ?_, fun colors force json D₁ D₂ _ _ _ _ L h₁ h₂
    hw₁ hw₂ halike hl₁ hl₂ => run_alike colors hsettings h₁ h₂ hw₁ hw₂ halike hl₁ hl₂⟩
  have hstairs := Disk.stairs_of_locate hlp
  refine ⟨⟨false, L⟩, relative_located hroot hp hlp, relative_located hroot hq hlq,
    ⟨L, Path.components_names hstairs.descent.2.1⟩, ?_⟩
  exact absolute_located hsteps hroot
    (root_directory (Disk.stairs_of_locate hroot) hsettings) hstairs

/-- A project with a link to its source directory. -/
def linkedDisk : Disk :=
  ⟨[(["w"], .directory), (["w", "testgen.toml"], .file (.text "[project]\n")),
    (["w", "src"], .directory), (["w", "src", "a.h"], .file (.text "class A {};\n")),
    (["w", "lib"], .link ⟨false, ["src", ""]⟩)]⟩

theorem linked_spellings_alike :
    linkedDisk.kindAt true ((Disk.pathOf ["w"]).child Config.fileName) = some .file ∧
    (∃ r, ((Project.usual.relative (Path.ofText "/w/lib/../src//a.h")).run linkedDisk).value = .ok r ∧
      ((Project.usual.relative (Path.ofText "/w/./lib/a.h")).run linkedDisk).value = .ok r ∧
      linkedDisk.locate true (Project.usual.absolute r) = .ok ["w", "src", "a.h"]) ∧
    (run false (Path.ofText "/w/lib") ["gen", "--unit-test", "a.h"]).run linkedDisk =
      (run false (Path.ofText "/w") ["gen", "--unit-test=src/../lib/a.h"]).run linkedDisk := by
  have hsettings : linkedDisk.kindAt true ((Disk.pathOf ["w"]).child Config.fileName) = some .file := by
    decide +kernel
  have hlib : Inside linkedDisk ["w"] (Path.ofText "/w/lib") := by
    refine ⟨by decide +kernel, ["src"], by decide +kernel, fun A hne hA => ?_⟩
    obtain ⟨rest, hrest⟩ := hA
    obtain ⟨rfl, -⟩ := (List.append_eq_singleton_iff.mp hrest).resolve_left fun h => hne h.1
    decide +kernel
  have hroot : Inside linkedDisk ["w"] (Path.ofText "/w") :=
    ⟨by decide +kernel, [], by decide +kernel, fun A hne hA => absurd (List.prefix_nil.mp hA) hne⟩
  obtain ⟨r, hr, hr', -, hl⟩ := (spellings_alike hsettings).1 .usual
    (Path.ofText "/w/lib/../src//a.h") (Path.ofText "/w/./lib/a.h") ["src", "a.h"] (by decide)
    (by decide +kernel) (by decide +kernel) (by decide +kernel) (by decide +kernel) (by decide +kernel)
  obtain ⟨-, -, hrun⟩ := (spellings_alike hsettings).2 false false false _ _
    ["gen", "--unit-test", "a.h"] ["gen", "--unit-test=src/../lib/a.h"] (.unitTest "a.h")
    (.unitTest "src/../lib/a.h") ["src", "a.h"] hlib hroot (by decide +kernel) (by decide +kernel)
    trivial (by decide +kernel) (by decide +kernel)
  exact ⟨hsettings, ⟨r, hr, hr', hl⟩, hrun⟩

end Command

end Scaffold
