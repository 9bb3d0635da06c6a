import Scaffold.Proofs.Outputs.Calls
import Scaffold.Proofs.Path.Relocated

/-!
# Files that were there before

Tests that exist are not overwritten unless this is asked for, and lists are only
extended, but for those of the directories that are visited.

* `Readied.made`, `Handled.kept` -- behind a directory that is there, only new files
  are written, and lists **only grow**;
* `Spared` -- what was there is spared, but for the lists that are written anew;
  `at_spared`: **by each output that a call handles**;
* `Tests.runs` -- calls one after another, and `handwork_survives`: what was there
  survives all of them.

A directory that is missing has nothing in it. So that a file is missing says that it is
new only where the path to it does not go up out of directories that are still to be
made; this is why paths have to be straight behind the source directory.
-/
namespace Scaffold

open Artifact (BuildList)

variable {P : Project} {R : Location} {d d₁ d' : Disk} {A B L : List String} {name : String}
  {rs rs' : List Record}

/-! ## 1. Outputs that are not overwritten -/

/-- The directories that are made for a file behind a directory that is there. -/
theorem Project.Readied.made (hd : d.Grounded)
    (hA : d.kindAt true (P.absolute ⟨false, A⟩) = some .directory) (hL : ∀ s ∈ L, Path.IsName s)
    (hname : Path.IsName name) (h : P.Readied ⟨false, A ++ L ++ [name]⟩ d d₁) :
    d₁ = d ∨ ∃ k, d.Made (Path.openEnd P.root.segments ++ A) L d₁ k := by
  rw [absolute_unrooted P rfl] at hA
  rcases h with (rfl | ⟨parent, hparent, htext, hmake⟩) | ⟨X, hX, hmake⟩
  · exact .inl rfl
  · rw [absolute_unrooted P rfl, ← List.append_assoc, ← List.append_assoc] at hparent
    exact Disk.made_above hd hA hL hname hparent htext hmake
  · obtain ⟨rfl, -⟩ := List.append_singleton_inj.mp hX
    rw [absolute_unrooted P rfl, ← List.append_assoc] at hmake
    exact Disk.made_below hd hA hL hmake

/-- **What is not to be overwritten is kept**, unless it is a list; then it grows. -/
theorem Handled.kept (hd : d.Grounded)
    (hA : d.kindAt true (P.absolute ⟨false, A⟩) = some .directory) (hL : ∀ s ∈ L, Path.IsName s)
    (hname : Path.IsName name) (h : Handled P ⟨false, A ++ L ++ [name]⟩ false rs d d')
    {l : Location} {c : Content} (hl : d.find? l = some (.file c)) :
    d'.find? l = some (.file c) ∨ (name = BuildList.fileName ∧
      d'.locate true (P.absolute ⟨false, A ++ L ++ [name]⟩) = .ok l ∧
        ∃ c', d'.find? l = some (.file c') ∧ c.Grown c') := by
  cases h with
  | failed h => exact .inl ((h.file_iff c).mpr hl)
  | excluded => exact .inl hl
  | left => exact .inl hl
  | changed hex ho hready hgrown hwrite =>
    have hpath : P.absolute ⟨false, A ++ L ++ [name]⟩ =
        ⟨P.root.rooted, Path.openEnd P.root.segments ++ A ++ L ++ [name]⟩ := by
      rw [absolute_unrooted P rfl, ← List.append_assoc, ← List.append_assoc]
    rw [hpath] at hwrite hgrown ⊢
    obtain ⟨G, hw⟩ := Disk.wrote_of_changeAt (hready.made hd hA hL hname) hready.extends hname hwrite
    by_cases hlG : l = G
    · subst hlG
      have hbefore := hw.before
      rw [hl] at hbefore
      cases hread : d.readAt ⟨P.root.rooted, Path.openEnd P.root.segments ++ A ++ L ++ [name]⟩ with
      | error f =>
        rw [hread] at hbefore
        cases hbefore
      | ok old =>
        rw [hread] at hbefore
        cases hbefore
        obtain ⟨hlist, hgrown⟩ := hgrown rfl c hread
        rw [Path.fileName?_concat hname] at hlist
        refine .inr ⟨Option.some.inj hlist, hw.located, _, hw.holds, ?_⟩
        rw [hread]
        exact hgrown
    · exact .inl ((hw.file_iff hlG c).mpr hl)

namespace Outputs

/-! ## 2. What is spared -/

/-- The directory is the one that belongs to a source directory that is visited. -/
def Mapped (P : Project) (visited : Path → Prop) (d : Disk) (T : Path) : Prop :=
  ∃ S, visited S ∧ d.kindAt true (P.absolute S) = some .directory ∧
    relocate S P.config.sourceDir testsDir = .ok T

/-- The list in a directory was written anew, for the directory belongs to a source
directory that is visited. -/
def Anew (P : Project) (visited : Path → Prop) (rs : List Record) (d' : Disk) (k : Location) :
    Prop :=
  ∃ T r, Mapped P visited d' ⟨false, T⟩ ∧ d'.locate true (P.absolute ⟨false, T⟩) = .ok k ∧
    r ∈ rs ∧ r.path = ⟨false, T ++ [BuildList.fileName]⟩ ∧ r.outcome = .written

/-- What was there is spared, but for the lists that were written anew. -/
structure Spared (P : Project) (visited : Path → Prop) (rs : List Record) (d d' : Disk) :
    Prop where
  grows : d.Grows d'
  files : ∀ l c, l.getLast? ≠ some BuildList.fileName → d.find? l = some (.file c) →
    d'.find? l = some (.file c)
  lists : ∀ k c, d.find? (k ++ [BuildList.fileName]) = some (.file c) →
    (∃ c', d'.find? (k ++ [BuildList.fileName]) = some (.file c') ∧ c.Grown c') ∨
      Anew P visited rs d' k

variable {visited : Path → Prop} {T p : Path} {o : Bool}

theorem Mapped.grows (h : Mapped P visited d T) (hg : d.Grows d') : Mapped P visited d' T := by
  obtain ⟨S, hS, hdir, hT⟩ := h
  exact ⟨S, hS, Disk.kindAt_grows hg hdir, hT⟩

theorem Anew.later {k : Location} (h : Anew P visited rs d k) (hg : d.Grows d')
    (hrs : ∀ r ∈ rs, r ∈ rs') : Anew P visited rs' d' k := by
  obtain ⟨T, r, hT, hk, hr, hrest⟩ := h
  exact ⟨T, r, hT.grows hg, Disk.locate_grows hg hk, hrs r hr, hrest⟩

theorem Spared.nothing (h : d.Extends d') : Spared P visited rs d d' where
  grows := h.grows
  files := fun _ c _ hl => (h.file_iff c).mpr hl
  lists := fun _ c hl => .inl ⟨c, (h.file_iff c).mpr hl, .refl c⟩

theorem Spared.append (h : Spared P visited rs d d₁) (h' : Spared P visited rs' d₁ d') :
    Spared P visited (rs ++ rs') d d' where
  grows := h.grows.trans h'.grows
  files := fun l c hl hf => h'.files l c hl (h.files l c hl hf)
  lists := by
    intro k c hf
    rcases h.lists k c hf with ⟨c₁, hf₁, hc₁⟩ | hanew
    · rcases h'.lists k c₁ hf₁ with ⟨c', hf', hc'⟩ | hanew
      · exact .inl ⟨c', hf', hc₁.trans hc'⟩
      · exact .inr (hanew.later (.refl d') fun r hr => List.mem_append_right _ hr)
    · exact .inr (hanew.later h'.grows fun r hr => List.mem_append_left _ hr)

/-! ## 3. What each output spares -/

/-- No link is called like a list. -/
def ListsUnlinked (d : Disk) : Prop := ∀ l t, d.find? (l ++ [BuildList.fileName]) ≠ some (.link t)

/-- The list in a directory lies where the directory does. -/
theorem located_list (h : Founded P R d) (hlinks : ListsUnlinked d)
    (hL : ∀ s ∈ L, Path.idle s = false) {l : Location}
    (hl : d.locate true (P.absolute ⟨false, L ++ [BuildList.fileName]⟩) = .ok l) :
    ∃ k, d.locate true (P.absolute ⟨false, L⟩) = .ok k ∧ l = k ++ [BuildList.fileName] := by
  obtain ⟨k, hk, -, hlk⟩ := h.located_below
    (fun l s hs t => List.mem_singleton.mp hs ▸ hlinks l t) hL
    (fun s hs => List.mem_singleton.mp hs ▸ BuildTree.fileName_isName) (by simp) hl
  exact ⟨k, hk, hlk⟩

/-- Behind a directory that is there, an output that is not overwritten spares
everything. -/
theorem kept_spared (h : Founded P R d) (h' : Founded P R d') (hlinks : ListsUnlinked d')
    (hneat : ∀ s ∈ A, Path.idle s = false)
    (hA : d.kindAt true (P.absolute ⟨false, A⟩) = some .directory) (hL : ∀ s ∈ L, Path.IsName s)
    (hname : Path.IsName name) (hs : Handled P ⟨false, A ++ L ++ [name]⟩ false rs d d') :
    Spared P visited rs d d' where
  grows := hs.grows
  files := by
    intro l c hl hf
    rcases hs.kept h.grounded hA hL hname hf with hf | ⟨rfl, hG, -⟩
    · exact hf
    · have hAL : ∀ s ∈ A ++ L, Path.idle s = false := fun s hs =>
        (List.mem_append.mp hs).elim (hneat s) fun hs => (hL s hs).not_idle
      obtain ⟨k, -, rfl⟩ := located_list h' hlinks hAL hG
      exact absurd (List.getLast?_concat) hl
  lists := by
    intro k c hf
    rcases hs.kept h.grounded hA hL hname hf with hf | ⟨-, -, hgrown⟩
    · exact .inl ⟨c, hf, .refl c⟩
    · exact .inl hgrown

/-- The list of a directory that belongs to a source directory is written anew, and
everything else is spared. -/
theorem list_spared (h' : Founded P R d') (hlinks : ListsUnlinked d')
    (hneat : ∀ s ∈ L, Path.idle s = false) (hL : Mapped P visited d ⟨false, L⟩)
    (hs : Handled P ⟨false, L ++ [BuildList.fileName]⟩ true rs d d') :
    Spared P visited rs d d' := by
  rcases hs.changes with ⟨hext, -⟩ | ⟨G, hchanged⟩
  · exact .nothing hext
  · obtain ⟨k, hk, rfl⟩ := located_list h' hlinks hneat hchanged.located
    refine ⟨hs.grows, fun l c hl hf => (hchanged.others l c ?_).mpr hf, fun k' c hf => ?_⟩
    · rintro rfl
      exact hl List.getLast?_concat
    · by_cases hk' : k' = k
      · subst hk'
        obtain ⟨o, detail, rfl, hout⟩ := hchanged.reported
        refine .inr ⟨L, _, hL.grows hs.grows, hk, List.mem_singleton_self _, rfl, ?_⟩
        rcases hout with rfl | ⟨-, hover⟩
        · rfl
        · cases hover
      · refine .inl ⟨c, (hchanged.others _ c fun e => hk' ?_).mpr hf, .refl c⟩
        exact (List.append_singleton_inj.mp e).1

/-- A visited directory that is relocated has only names behind the source
directory. -/
def Straightly (P : Project) (visited : Path → Prop) : Prop :=
  ∀ S, visited S → ∀ T, relocate S P.config.sourceDir testsDir = .ok T →
    ∃ A B, S = ⟨false, A ++ P.config.sourceDir :: B⟩ ∧ (∀ s ∈ A, Path.idle s = false) ∧
      (∀ s ∈ B, Path.IsName s) ∧ T = ⟨false, A ++ ["tests", "ut"] ++ B⟩

/-- **Each output that a call handles without overwriting spares what was there**, but
for the lists that are written anew. -/
theorem at_spared (h : Founded P R d) (h' : Founded P R d') (hlinks : ListsUnlinked d')
    (hstraight : Straightly P visited) (hp : Tests.At P false visited d p o)
    (hs : Handled P p o rs d d') : Spared P visited rs d d' := by
  obtain ⟨S, hS, hdir, hplace⟩ := hp
  -- what stands before the source directory is there, for the source directory is
  have hthere : ∀ {T}, relocate S P.config.sourceDir testsDir = .ok T → ∃ A B,
      (∀ s ∈ A, Path.idle s = false) ∧ (∀ s ∈ B, Path.IsName s) ∧
        d.kindAt true (P.absolute ⟨false, A⟩) = some .directory ∧
          T = ⟨false, A ++ (["tests", "ut"] ++ B)⟩ := by
    intro T hT
    obtain ⟨A, B, rfl, hA, hB, rfl⟩ := hstraight S hS T hT
    exact ⟨A, B, hA, hB, h.above hA (by simp) hdir, by rw [List.append_assoc]⟩
  have hnames : ∀ {B : List String}, (∀ s ∈ B, Path.IsName s) →
      ∀ s ∈ ["tests", "ut"] ++ B, Path.IsName s := fun hB s hs =>
    (List.mem_append.mp hs).elim (Path.tests_neat s) (hB s)
  have hneat : ∀ {A B : List String}, (∀ s ∈ A, Path.idle s = false) → (∀ s ∈ B, Path.IsName s) →
      (⟨false, A ++ (["tests", "ut"] ++ B)⟩ : Path).Neat := fun hA hB s hs =>
    (List.mem_append.mp hs).elim (hA s) fun hs => (hnames hB s hs).not_idle
  cases hplace with
  | @test T header hT =>
    obtain ⟨A, B, hA, hB, hdirA, rfl⟩ := hthere hT
    rw [(hneat hA hB).child] at hs
    exact kept_spared h h' hlinks hA hdirA (hnames hB) (Tests.testName_isName _) hs
  | @above T x hT hx =>
    obtain ⟨A, B, hA, hB, hdirA, rfl⟩ := hthere hT
    obtain ⟨X, Y, hXY, hxX⟩ := BuildTree.chain_prefix (hneat hA hB) x hx
    have hX : (⟨false, X⟩ : Path).Neat := fun s hs => hneat hA hB s (hXY ▸ List.mem_append_left Y hs)
    rw [hxX, hX.child] at hs
    rcases List.append_eq_append_iff.mp hXY with ⟨L, rfl, hL⟩ | ⟨L, rfl, -⟩
    · -- the chain is still behind the source directory
      refine kept_spared h h' hlinks hA hdirA (fun s hs => hnames hB s ?_)
        BuildTree.fileName_isName hs
      rw [hL]
      exact List.mem_append_left Y hs
    · -- the chain goes on above it, where all directories are there
      have hdirX : d.kindAt true (P.absolute ⟨false, X⟩) = some .directory := by
        by_cases hne : L = []
        · rwa [hne, List.append_nil] at hdirA
        · exact h.above hX hne hdirA
      rw [← List.append_nil X] at hs
      exact kept_spared h h' hlinks hX hdirX (fun s hs => absurd hs List.not_mem_nil)
        BuildTree.fileName_isName hs
  | @list T hT =>
    obtain ⟨A, B, hA, hB, -, rfl⟩ := hthere hT
    rw [(hneat hA hB).child] at hs
    exact list_spared h' hlinks (hneat hA hB) ⟨S, hS, hdir, hT⟩ hs

/-! ## 4. What calls spare -/

/-- Where the path that a call is for is straight, so are those that it visits. -/
theorem straightly_visited (h : Founded P R d) {call : Tests.Call}
    (hstraight : ∀ rel, ((P.relative call.input).run d).value = .ok rel →
      rel.StraightBehind P.config.sourceDir) : Straightly P (call.Visited P d) := by
  rintro S ⟨rel, hrel, hS⟩ T hT
  obtain ⟨L, rfl, hL⟩ := (h.relative call.input).of_run_ok hrel
  have hneat : (⟨false, L⟩ : Path).Neat := fun s hs => (hL s hs).1
  obtain ⟨W, M, N, rfl, hWM, -, hN⟩ := hS.split hneat
  have hnames : (⟨false, L⟩ : Path).names = L := hneat.names
  obtain ⟨A, B, rfl, -, hB, rfl⟩ := (hstraight _ hrel).relocate (by rwa [hnames]) hN
    (fun s hs => (Path.tests_neat s hs).not_idle) hT
  refine ⟨A, B, rfl, fun s hs => ?_, hB, rfl⟩
  have hmem : s ∈ L ++ N := hWM ▸ List.mem_append_left M (List.mem_append_left _ hs)
  rcases List.mem_append.mp hmem with hs | hs
  · exact hneat s hs
  · exact (hN s hs).not_idle

theorem ListsUnlinked.answer (h : ListsUnlinked d) (q : Request) : ListsUnlinked (d.answer q).2 :=
  fun l t hl => h l t (d.answer_links q hl)

/-- **A call that does not overwrite spares what was there**, but for the lists that it
writes anew. -/
theorem call_spared (h : Founded P R d) (hlinks : ListsUnlinked d) {call : Tests.Call}
    (hover : call.overwrites = false)
    (hstraight : ∀ rel, ((P.relative call.input).run d).value = .ok rel →
      rel.StraightBehind P.config.sourceDir) :
    (call.job P).Leaves (Spared P (call.Visited P d)) d := by
  have hhandles : Handles P _ _ d _ := Tests.Call.handles h call
  rw [hover] at hhandles
  exact hhandles.keeps (I := fun d => Founded P R d ∧ ListsUnlinked d)
    (K := fun rs d d' => Spared P (call.Visited P _) rs d d')
    (fun _ q hd => ⟨hd.1.answer q, hd.2.answer q⟩) (fun d => .nothing (.refl d)) .append
    (fun hd hd' hp hs => at_spared hd.1 hd'.1 hd'.2 (straightly_visited h hstraight) hp hs)
    ⟨h, hlinks⟩

/-! ## 5. Calls one after another -/

/-- Calls one after another, each with the disk that it finds. -/
def runs (P : Project) : Disk → List Tests.Call → List (Tests.Call × Disk)
  | _, [] => []
  | d, call :: calls => (call, d) :: runs P ((call.job P).run d).disk calls

/-- The disk that calls leave one after another, however they end. -/
def after (P : Project) : Disk → List Tests.Call → Disk
  | d, [] => d
  | d, call :: calls => after P ((call.job P).run d).disk calls

/-- The call writes the list in the directory anew. -/
def Rewrites (P : Project) (call : Tests.Call) (d : Disk) (k : Location) : Prop :=
  Anew P (call.Visited P d) ((call.job P).run d).report.records ((call.job P).run d).disk k

/-- **What was there survives any sequence of calls that do not overwrite**, however they
end, if no path that they are for goes up from the source directory on. Files other than
lists hold what they held, and lists only grow, unless they are the lists of directories that
belong to a source directory that is visited, and are written anew for that. -/
theorem handwork_survives {calls : List Tests.Call} (h : Founded P R d) (hlinks : ListsUnlinked d)
    (hruns : ∀ x ∈ runs P d calls, x.1.overwrites = false ∧
      ∀ rel, ((P.relative x.1.input).run x.2).value = .ok rel →
        rel.StraightBehind P.config.sourceDir) :
    (∀ l c, l.getLast? ≠ some BuildList.fileName → d.find? l = some (.file c) →
      (after P d calls).find? l = some (.file c)) ∧
    ∀ k c, d.find? (k ++ [BuildList.fileName]) = some (.file c) →
      (∀ x ∈ runs P d calls, ¬Rewrites P x.1 x.2 k) →
        ∃ c', (after P d calls).find? (k ++ [BuildList.fileName]) = some (.file c') ∧
          c.Grown c' := by
  induction calls generalizing d with
  | nil => exact ⟨fun _ _ _ hf => hf, fun _ c hf _ => ⟨c, hf, .refl c⟩⟩
  | cons call calls ih =>
    obtain ⟨hover, hstraight⟩ := hruns _ List.mem_cons_self
    have hspared : Spared P _ _ d _ := call_spared h hlinks hover hstraight
    have hreach := Job.run_reaches (call.job P) d
    obtain ⟨hfiles, hlists⟩ := ih (h.reached hreach)
      (hreach.keeps (I := ListsUnlinked) (fun _ q hd => hd.answer q) hlinks)
      fun x hx => hruns x (List.mem_cons_of_mem _ hx)
    refine ⟨fun l c hl hf => hfiles l c hl (hspared.files l c hl hf), fun k c hf hnot => ?_⟩
    rcases hspared.lists k c hf with ⟨c₁, hf₁, hc₁⟩ | hanew
    · obtain ⟨c', hf', hc'⟩ := hlists k c₁ hf₁ fun x hx => hnot x (List.mem_cons_of_mem _ hx)
      exact ⟨c', hf', hc₁.trans hc'⟩
    · exact absurd hanew (hnot _ List.mem_cons_self)

/-- A project with a test that was written by hand, and a list. -/
def handDisk : Disk :=
  ⟨[(["w"], .directory), (["w", "src"], .directory), (["w", "src", "a"], .directory),
    (["w", "src", "a", "x.h"], .file (.text "class X {};\n")),
    (["w", "src", "a", "y.h"], .file (.text "class Y {};\n")),
    (["w", "tests"], .directory), (["w", "tests", "ut"], .directory),
    (["w", "tests", "ut", "CMakeLists.txt"], .file (.text "# mine\n")),
    (["w", "tests", "ut", "a"], .directory),
    (["w", "tests", "ut", "a", "ut_x.cpp"], .file (.text "// mine\n"))]⟩

/-- The tests of the directory, and then those of the tree. -/
def handCalls : List Tests.Call := [.tests false ⟨false, ["src", "a"]⟩, .tree false ⟨false, ["src"]⟩]

/-- The test is kept, though one is written beside it, and the list declares the directory
behind what it held. -/
theorem handwork_kept :
    (after Project.usual handDisk handCalls).kindAt true ⟨true, ["w", "tests", "ut", "a", "ut_y.cpp"]⟩ =
      some .file ∧
    (after Project.usual handDisk handCalls).find? ["w", "tests", "ut", "a", "ut_x.cpp"] =
      some (.file (.text "// mine\n")) ∧
    ∃ c, (after Project.usual handDisk handCalls).find? ["w", "tests", "ut", "CMakeLists.txt"] =
      some (.file c) ∧ (Content.text "# mine\n").Grown c := by
  have hfounded : Founded Project.usual ["w"] handDisk :=
    ⟨by decide +kernel, by decide +kernel, by decide, by decide +kernel, by decide +kernel⟩
  have hlinks : ListsUnlinked handDisk := fun _ _ hl =>
    Disk.linkless_of_entries (d := handDisk) (by decide) _ _ hl rfl
  have hstraight : ∀ x ∈ runs Project.usual handDisk handCalls, x.1.overwrites = false ∧
      x.1.input.rooted = false ∧ (⟨false, x.1.input.names⟩ : Path).StraightBehind "src" := by
    decide +kernel
  have hwritten : ∀ x ∈ runs Project.usual handDisk handCalls,
      ∀ r ∈ ((x.1.job Project.usual).run x.2).report.records, r.outcome = .written →
        ((x.1.job Project.usual).run x.2).disk.locate true
          (Project.usual.absolute ⟨false, r.path.segments.dropLast⟩) ≠ .ok ["w", "tests", "ut"] := by
    decide +kernel
  have hruns : ∀ x ∈ runs Project.usual handDisk handCalls, x.1.overwrites = false ∧
      ∀ rel, ((Project.usual.relative x.1.input).run x.2).value = .ok rel →
        rel.StraightBehind "src" := by
    intro x hx
    obtain ⟨hover, hroot, hnames⟩ := hstraight x hx
    refine ⟨hover, fun rel hrel => ?_⟩
    rw [relative_unrooted Project.usual hroot] at hrel
    cases hrel
    exact hnames
  obtain ⟨hfiles, hlists⟩ := handwork_survives hfounded hlinks hruns
  refine ⟨by decide +kernel, hfiles _ _ (by decide) rfl,
    hlists ["w", "tests", "ut"] _ rfl fun x hx => ?_⟩
  rintro ⟨T, r, -, hk, hr, hpath, hout⟩
  have hnot := hwritten x hx r hr hout
  rw [hpath, List.dropLast_concat] at hnot
  exact hnot hk

/-- On a path that goes up behind the source directory, a test is looked for where there is
no directory yet. Once that is made the path leads to the one that was written by hand, and
it is lost. -/
theorem handwork_lost :
    (((Tests.Call.tests false ⟨false, ["src", "b", "..", "a", "x.h"]⟩).job Project.usual).run
      (handDisk.put ["w", "src", "b"] .directory)).value.isOk = true ∧
    (((Tests.Call.tests false ⟨false, ["src", "b", "..", "a", "x.h"]⟩).job Project.usual).run
      (handDisk.put ["w", "src", "b"] .directory)).disk.readAt
        ⟨true, ["w", "tests", "ut", "a", "ut_x.cpp"]⟩ ≠ .ok (.text "// mine\n") := by
  decide +kernel

end Outputs

end Scaffold
