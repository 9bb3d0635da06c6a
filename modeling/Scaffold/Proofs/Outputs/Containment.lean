import Scaffold.Proofs.Outputs.Calls
import Scaffold.Proofs.Path.Relocated

/-!
# Generated files stay in the test trees

A path may go up. Before the source directory this does no harm, for what is
generated lies behind that.

* `Call.Base` -- what stands before the source directory on the paths of a call;
* `Call.Puts.inside` -- **what is generated lies in a test tree right behind such a
  base**, and `generated_inside` says so of the files that change;
* `InSource` -- the source directory on a path leads to what the path leads
  to; where it does not, a header is refused.
-/
namespace Scaffold

variable {P : Project} {R : Location} {d d' : Disk} {p : Path} {A B : List String}

namespace Outputs

variable {call : Call}

/-! ## 1. Where things are put -/

/-- The tree that a call generates files in. -/
def Call.tree : Call → List String
  | .mock _ => ["tests", "mocks"]
  | _ => ["tests", "ut"]

/-- What stands before the first segment that names the source directory, on the path
that the call is for, or on a path below it if the call goes through a tree. -/
def Call.Base (P : Project) (call : Call) (A : List String) : Prop :=
  ∃ N B, (N ≠ [] → ∃ o input, call = .tests (.tree o input)) ∧ (∀ s ∈ N, Path.IsName s) ∧
    call.input.names ++ N = A ++ P.config.sourceDir :: B ∧ P.config.sourceDir ∉ A

/-- Where the path of the call names the source directory, there is one base. -/
theorem Call.base_iff (hinput : call.input.names = A ++ P.config.sourceDir :: B)
    (hA : P.config.sourceDir ∉ A) {A' : List String} : call.Base P A' ↔ A' = A := by
  constructor
  · rintro ⟨N, B', -, -, hsplit, hA'⟩
    have hfirst := Path.takeWhile_first (B := B ++ N) hA
    rw [← List.cons_append, ← List.append_assoc, ← hinput, hsplit,
      Path.takeWhile_first hA'] at hfirst
    exact hfirst
  · rintro rfl
    exact ⟨[], B, fun h => absurd rfl h, fun s hs => absurd hs List.not_mem_nil,
      by rw [List.append_nil, hinput], hA⟩

theorem Call.Base.not_idle (h : call.Base P A) : ∀ s ∈ A, Path.idle s = false := by
  obtain ⟨N, B, -, hN, hsplit, -⟩ := h
  intro s hs
  have hs : s ∈ call.input.names ++ N := hsplit ▸ List.mem_append_left _ hs
  rcases List.mem_append.mp hs with hs | hs
  · exact (Path.mem_names hs).1
  · exact (hN s hs).not_idle

/-- There is no other test tree around that of the base, and what is mocked is not the
source directory itself. -/
def Call.Regular (P : Project) (call : Call) (A : List String) : Prop :=
  match call with
  | .mock header => header.names ≠ A ++ [P.config.sourceDir]
  | _ => ¬["tests", "ut"] <:+: A

/-- The path lies in the tree of the call behind the base. -/
def Call.Inside (call : Call) (A : List String) (p : Path) : Prop :=
  ∃ L, L ≠ [] ∧ (∀ s ∈ L, Path.IsName s) ∧ p = ⟨false, A ++ call.tree ++ L⟩

theorem Call.tree_names (call : Call) : ∀ s ∈ call.tree, Path.IsName s := by
  cases call with
  | mock header => exact mocks_names
  | tests call => exact Path.tests_neat
  | register leaf testRoot => exact Path.tests_neat
  | relist leaf sourceDir => exact Path.tests_neat

theorem Call.Base.neat (hA : call.Base P A) (hB : ∀ s ∈ B, Path.IsName s) :
    (⟨false, A ++ call.tree ++ B⟩ : Path).Neat := by
  intro s hs
  rw [List.append_assoc, List.mem_append, List.mem_append] at hs
  rcases hs with hs | hs | hs
  · exact hA.not_idle s hs
  · exact (call.tree_names s hs).not_idle
  · exact (hB s hs).not_idle

/-- What has a name in a directory behind the base lies there as well. -/
theorem Call.Base.inside (hB : ∀ s ∈ B, Path.IsName s) {name : String} (hname : Path.IsName name) :
    call.Inside A ⟨false, A ++ call.tree ++ B ++ [name]⟩ := by
  refine ⟨B ++ [name], by simp, fun s hs => ?_, by rw [List.append_assoc _ B]⟩
  rcases List.mem_append.mp hs with hs | hs
  · exact hB s hs
  · exact List.mem_singleton.mp hs ▸ hname

/-- A path on or below that of the call is relocated behind a base. -/
theorem Call.base_of_relocate (hstraight : call.input.StraightBehind P.config.sourceDir)
    {L M N T : List String} {q : Path} (hLM : L ++ M = call.input.names ++ N)
    (htree : N ≠ [] → ∃ o input, call = .tests (.tree o input)) (hN : ∀ s ∈ N, Path.IsName s)
    (hT : ∀ s ∈ T, Path.idle s = false)
    (hq : relocate ⟨false, L⟩ P.config.sourceDir ⟨false, T⟩ = .ok q) :
    ∃ A B, L = A ++ P.config.sourceDir :: B ∧ call.Base P A ∧ (∀ s ∈ B, Path.IsName s) ∧
      q = ⟨false, A ++ T ++ B⟩ := by
  obtain ⟨A, B, rfl, hA, hB, rfl⟩ := hstraight.relocate hLM hN hT hq
  have hsplit : call.input.names ++ N = A ++ P.config.sourceDir :: (B ++ M) := by
    rw [← hLM, List.append_assoc, List.cons_append]
  exact ⟨A, B, rfl, ⟨N, B ++ M, htree, hN, hsplit, hA⟩, hB, rfl⟩

/-- The test directory of a directory that is visited lies behind a base. -/
theorem visits_base {tcall : Tests.Call} {V T : Path}
    (hstraight : (Call.tests tcall).input.StraightBehind P.config.sourceDir)
    (hV : tcall.Visits ⟨false, tcall.input.names⟩ V)
    (hT : relocate V P.config.sourceDir testsDir = .ok T) :
    ∃ A B, (Call.tests tcall).Base P A ∧ (∀ s ∈ B, Path.IsName s) ∧
      T = ⟨false, A ++ ["tests", "ut"] ++ B⟩ := by
  obtain ⟨L, M, N, rfl, hLM, htree, hN⟩ := hV.split tcall.input.names_neat
  obtain ⟨A, B, -, hrest⟩ := Call.base_of_relocate hstraight hLM
    (fun hne => (htree hne).imp fun _ => Exists.imp fun _ => congrArg Call.tests) hN
    (fun s hs => (Path.tests_neat s hs).not_idle) hT
  exact ⟨A, B, hrest⟩

/-- **What is generated lies in a test tree right behind a base.** -/
theorem Call.Puts.inside (hstraight : call.input.StraightBehind P.config.sourceDir)
    (h : call.Puts P ⟨false, call.input.names⟩ p) :
    ∃ A, call.Base P A ∧ (call.Regular P A → call.Inside A p) := by
  cases call with
  | mock header =>
    have hbase : ∀ {M}, relocate ⟨false, header.names⟩ P.config.sourceDir mocksDir = .ok M → _ :=
      Call.base_of_relocate (M := []) (N := []) hstraight rfl (fun h => absurd rfl h)
        (fun s hs => absurd hs List.not_mem_nil) fun s hs => (mocks_names s hs).not_idle
    cases h with
    | marker hM =>
      obtain ⟨A, B, hsplit, hA, hB, rfl⟩ := hbase hM
      refine ⟨A, hA, fun hregular => ⟨B, ?_, hB, rfl⟩⟩
      rintro rfl
      exact hregular hsplit
    | @beside M name hM hname hslash =>
      obtain ⟨A, B, hsplit, hA, hB, rfl⟩ := hbase hM
      refine ⟨A, hA, fun hregular => ?_⟩
      rcases B.eq_nil_or_concat with rfl | ⟨X, m, rfl⟩
      · exact absurd hsplit hregular
      · rw [List.concat_eq_append] at hB ⊢
        have hneat : (⟨false, A ++ ["tests", "mocks"] ++ (X ++ [m])⟩ : Path).Neat := hA.neat hB
        rw [← List.append_assoc] at hneat ⊢
        rw [Path.withFileName_concat hneat (hB m (by simp)).2.2 hslash]
        exact Call.Base.inside (fun s hs => hB s (List.mem_append_left _ hs)) hname
  | tests tcall =>
    obtain ⟨V, o, hV, hplace⟩ := h
    have hchild : ∀ {A B : List String} {name : String}, (Call.tests tcall).Base P A →
        (∀ s ∈ B, Path.IsName s) → Path.IsName name →
        (Call.tests tcall).Inside A ((⟨false, A ++ ["tests", "ut"] ++ B⟩ : Path).child name) := by
      intro A B name hA hB hname
      have hneat : (⟨false, A ++ ["tests", "ut"] ++ B⟩ : Path).Neat := hA.neat hB
      rw [hneat.child]
      exact Call.Base.inside hB hname
    cases hplace with
    | test hT =>
      obtain ⟨A, B, hA, hB, rfl⟩ := visits_base hstraight hV hT
      exact ⟨A, hA, fun _ => hchild hA hB (Tests.testName_isName _)⟩
    | @above T x hT hx =>
      obtain ⟨A, B, hA, hB, rfl⟩ := visits_base hstraight hV hT
      refine ⟨A, hA, fun hregular => ?_⟩
      rw [Path.testRootOf_first (hA.neat hB) hregular] at hx
      obtain ⟨B', C, rfl, hxB⟩ := BuildTree.chain_below (hA.neat hB) x hx
      rw [hxB]
      exact hchild hA (fun s hs => hB s (List.mem_append_left _ hs)) BuildTree.fileName_isName
    | list hT =>
      obtain ⟨A, B, hA, hB, rfl⟩ := visits_base hstraight hV hT
      exact ⟨A, hA, fun _ => hchild hA hB BuildTree.fileName_isName⟩
  | register leaf testRoot => exact h.elim
  | relist leaf sourceDir => exact h.elim

/-! ## 2. Files that change -/

/-- **A file changes only where a wanted path leads.** -/
theorem changed_wanted {wanted : Path → Prop} {rs : List Record}
    (h : Handles P (fun _ p _ => wanted p) rs d d') {l : Location} {c : Content}
    (hl : d'.find? l = some (.file c)) : d.find? l = some (.file c) ∨
      ∃ p, wanted p ∧ d'.locate true (P.absolute p) = .ok l := by
  have hboth : d.Grows d' ∧ ∀ l c, d'.find? l = some (.file c) → d.find? l = some (.file c) ∨
      ∃ p, wanted p ∧ d'.locate true (P.absolute p) = .ok l := by
    refine h.keeps (I := fun _ => True) (K := fun _ d d' => d.Grows d' ∧ ∀ l c,
      d'.find? l = some (.file c) → d.find? l = some (.file c) ∨
        ∃ p, wanted p ∧ d'.locate true (P.absolute p) = .ok l) (fun _ _ _ => trivial)
      (fun d => ⟨.refl d, fun _ _ hl => .inl hl⟩) ?_
      (fun _ _ hp hs => ⟨hs.grows, ?_⟩) trivial
    · rintro rs rs' d d₁ d' ⟨hg, h⟩ ⟨hg', h'⟩
      refine ⟨hg.trans hg', fun l c hl => ?_⟩
      rcases h' l c hl with hl | hl
      · rcases h l c hl with hl | ⟨p, hp, hl⟩
        · exact .inl hl
        · exact .inr ⟨p, hp, Disk.locate_grows hg' hl⟩
      · exact .inr hl
    · intro l c hl
      rcases hs.changes with ⟨hext, -⟩ | ⟨G, hchanged⟩
      · exact .inl ((hext.file_iff c).mp hl)
      · by_cases hlG : l = G
        · exact .inr ⟨_, hp, hlG ▸ hchanged.located⟩
        · exact .inl ((hchanged.others l c hlG).mp hl)
  exact hboth.2 l c hl

/-! ## 3. Headers outside the source directory -/

/-- What the path leads to lies in what its first segment that names the source
directory leads to. -/
def InSource (P : Project) (d : Disk) (p : Path) : Prop :=
  ∃ A B G l, p.names = A ++ P.config.sourceDir :: B ∧ P.config.sourceDir ∉ A ∧
    d.locate true (P.absolute ⟨false, A ++ [P.config.sourceDir]⟩) = .ok G ∧
      d.locate true (P.absolute ⟨false, p.names⟩) = .ok l ∧ G <+: l

/-- Without links, a path that is straight behind the source directory stays in it. -/
theorem inSource_of_straight (h : Founded P R d) (hlinks : d.Linkless)
    (hstraight : p.StraightBehind P.config.sourceDir) {l : Location}
    (hl : d.locate true (P.absolute ⟨false, p.names⟩) = .ok l) (hS : P.config.sourceDir ≠ "..")
    (hmem : P.config.sourceDir ∈ p.names) : InSource P d p := by
  obtain ⟨A, B, hsplit, hA⟩ := List.eq_append_cons_of_mem hmem
  have hB := hstraight.isName (N := []) (B := B) hS hA (fun s hs => absurd hs List.not_mem_nil)
    (by rw [List.append_nil, hsplit])
  have hfirst : ∀ s ∈ A ++ [P.config.sourceDir], Path.idle s = false := by
    intro s hs
    refine (Path.mem_names (p := p) ?_).1
    rw [hsplit, List.append_cons]
    exact List.mem_append_left _ hs
  have hnames : p.names = (A ++ [P.config.sourceDir]) ++ B := by rw [hsplit, List.append_cons]
  by_cases hne : B = []
  · subst hne
    rw [List.append_nil] at hnames
    exact ⟨A, [], l, l, hsplit, hA, hnames ▸ hl, hl, List.prefix_refl l⟩
  · have hl' := hl
    rw [hnames] at hl'
    obtain ⟨G, hG, -, rfl⟩ := h.located_below (fun _ _ _ _ hl => hlinks _ _ hl rfl) hfirst hB hne hl'
    exact ⟨A, B, G, _, hsplit, hA, hG, hl, List.prefix_append G B⟩

/-- The names on the parent of a path stand on the path. -/
theorem mem_parent {L : List String} (hneat : (⟨false, L⟩ : Path).Neat) :
    ∃ A, (⟨false, L⟩ : Path).parent?.getD Path.empty = ⟨false, A⟩ ∧ ∀ s ∈ A, s ∈ L := by
  rcases L.eq_nil_or_concat with rfl | ⟨X, s, rfl⟩
  · exact ⟨[], rfl, fun s hs => hs⟩
  · rw [List.concat_eq_append] at hneat ⊢
    rw [hneat.parent?]
    exact ⟨X, rfl, fun t ht => List.mem_append_left _ ht⟩

/-- There is a header at the path, on which no segment names the source directory. -/
structure Foreign (P : Project) (d : Disk) (p : Path) : Prop where
  unrooted : p.rooted = false
  header : P.isHeader ⟨false, p.names⟩ = true
  file : d.kindAt true (P.absolute ⟨false, p.names⟩) = some .file
  unnamed : P.config.sourceDir ∉ p.names ∨ P.config.sourceDir = ".."

/-- The job fails, for there is something outside the source directory, and it does
nothing. -/
def Refuses {α : Type} (P : Project) (t : Job α) (d : Disk) : Prop :=
  t.Ends (fun _ _ => False)
    (fun e d' => (∃ q, e = .outsideSourceTree q P.config.sourceDir) ∧ d' = d) d

theorem Foreign.mock_refused (h : Foreign P d p) : Refuses P (Mocks.generate P p) d := by
  have houtside : relocate ⟨false, p.names⟩ P.config.sourceDir mocksDir = _ :=
    Path.relocate_outside p.names_neat h.unnamed
  unfold Refuses Mocks.generate
  rw [relative_unrooted P h.unrooted, Job.ends_seq, Job.ends_pure, if_neg (by simp [h.header]),
    houtside, Job.ends_seq, Job.ends_ofExcept]
  exact ⟨⟨_, rfl⟩, rfl⟩

theorem Foreign.tests_refused (h : Foreign P d p) (o : Bool) :
    Refuses P (Tests.generate P o p) d := by
  have hneat := p.names_neat
  obtain ⟨A, hA, hAp⟩ := mem_parent hneat
  have hdir : Tests.testDirOf P ⟨false, p.names⟩ =
      .error (.outsideSourceTree ⟨false, A⟩ P.config.sourceDir) := by
    unfold Tests.testDirOf
    rw [hA]
    exact Path.relocate_outside (fun s hs => hneat s (hAp s hs))
      (h.unnamed.imp_left fun hnot hmem => hnot (hAp _ hmem))
  unfold Refuses Tests.generate
  rw [relative_unrooted P h.unrooted, Job.ends_seq, Job.ends_pure, Job.ends_seq, Job.ends_kind,
    h.file]
  dsimp only
  rw [if_pos h.header, Tests.generateOne_outside hdir]
  exact ⟨⟨_, rfl⟩, rfl⟩

theorem Foreign.tree_refused (h : Foreign P d p) (o : Bool) :
    Refuses P (Tests.generateTree P o p) d := by
  have hnames : (⟨false, p.names⟩ : Path).names = p.names :=
    p.names_neat.names
  have hagain : Foreign P d ⟨false, p.names⟩ :=
    ⟨rfl, by rw [hnames]; exact h.header, by rw [hnames]; exact h.file, by rw [hnames]; exact h.unnamed⟩
  unfold Refuses Tests.generateTree
  rw [relative_unrooted P h.unrooted, Job.ends_seq, Job.ends_pure, Job.ends_seq,
    Job.ends_isDirectory, h.file, if_neg (by decide)]
  exact hagain.tests_refused o

/-- **A header on whose path no segment names the source directory is refused**, and
nothing is done. -/
theorem Call.refused (h : Foreign P d call.input) (hgenerates : call.Generates) :
    Refuses P (call.job P) d := by
  cases call with
  | mock header =>
    change ((Mocks.generate P header).bind _).Ends _ _ d
    rw [Job.ends_bind]
    exact Job.Ends.mono (fun _ _ hno => hno.elim) (fun _ _ he => he) h.mock_refused
  | tests tcall =>
    cases tcall with
    | tests o input => exact h.tests_refused o
    | tree o input => exact h.tree_refused o
  | register leaf testRoot => exact hgenerates.elim
  | relist leaf sourceDir => exact hgenerates.elim

/-! ## 4. Containment -/

/-- **Generated files stay in the test trees**, whatever the input, as long as it does
not go up from the source directory on. A file that changes is where a path leads that
goes on with names in the tree of the call, right behind what stands before the source
directory; without links it lies in that tree. And a header that lies elsewhere is refused,
and nothing is done. -/
theorem generated_inside (h : Founded P R d) (hslash : d.Unslashed) (hgenerates : call.Generates)
    (hr : call.input.rooted = false) (hstraight : call.input.StraightBehind P.config.sourceDir) :
    (∀ l c, ((call.job P).run d).disk.find? l = some (.file c) → d.find? l = some (.file c) ∨
      ∃ A, call.Base P A ∧ (call.Regular P A →
        (∃ p, call.Inside A p ∧ ((call.job P).run d).disk.locate true (P.absolute p) = .ok l) ∧
        (d.Linkless → ∃ G L, L ≠ [] ∧ l = G ++ call.tree ++ L ∧
          ((call.job P).run d).disk.locate true (P.absolute ⟨false, A⟩) = .ok G))) ∧
    (d.Linkless → P.isHeader ⟨false, call.input.names⟩ = true →
      d.kindAt true (P.absolute ⟨false, call.input.names⟩) = some .file →
      ¬InSource P d call.input →
      (∃ q, ((call.job P).run d).value = .error (.outsideSourceTree q P.config.sourceDir)) ∧
        ((call.job P).run d).disk = d) := by
  have hrel : ∀ rel, ((P.relative call.input).run d).value = .ok rel →
      rel = ⟨false, call.input.names⟩ := by
    intro rel hrel
    rw [relative_unrooted P hr] at hrel
    cases hrel
    rfl
  have hreach := Job.run_reaches (call.job P) d
  have hd' : Founded P R ((call.job P).run d).disk := h.reached hreach
  refine ⟨fun l c hl => ?_, fun hlinks hheader hfile hout => ?_⟩
  · have hleft : (call.job P).Leaves _ d := Call.generates_handles h hslash hgenerates
    rcases hleft with ⟨_, _, _, _, hmarked⟩ | hhandles
    · exact .inl (hmarked.same ▸ hl)
    rcases changed_wanted hhandles hl with hl | ⟨p, ⟨rel, hrelp, hp⟩, hpl⟩
    · exact .inl hl
    obtain rfl := hrel rel hrelp
    obtain ⟨A, hA, hinside⟩ := hp.inside hstraight
    refine .inr ⟨A, hA, fun hregular => ⟨⟨p, hinside hregular, hpl⟩, fun hlinks => ?_⟩⟩
    obtain ⟨L, hne, hL, rfl⟩ := hinside hregular
    have hlinks' := hreach.keeps (I := Disk.Linkless) (fun _ q hd => Disk.answer_linkless hd q) hlinks
    rw [List.append_assoc] at hpl
    obtain ⟨G, hG, -, rfl⟩ := hd'.located_below (fun _ _ _ _ hl => hlinks' _ _ hl rfl) hA.not_idle
      (fun s hs => (List.mem_append.mp hs).elim (call.tree_names s) (hL s)) (by simp [hne]) hpl
    exact ⟨G, L, hne, by rw [List.append_assoc], hG⟩
  · obtain ⟨l, e, hl, -, -⟩ := Disk.kindAt_eq_some_iff.mp hfile
    have hS : P.config.sourceDir ∉ call.input.names ∨ P.config.sourceDir = ".." := by
      by_contra hS
      obtain ⟨hmem, hS⟩ := not_or.mp hS
      exact hout (inSource_of_straight h hlinks hstraight hl hS (not_not.mp hmem))
    have hrefused := Call.refused ⟨hr, hheader, hfile, hS⟩ hgenerates
    cases hv : ((call.job P).run d).value with
    | ok a => exact (hrefused.of_run_ok hv).elim
    | error e =>
      obtain ⟨⟨q, rfl⟩, hsame⟩ := hrefused.of_run_error hv
      exact ⟨⟨q, rfl⟩, hsame⟩

/-- A project with a header in the source directory and one elsewhere. -/
def strayDisk : Disk :=
  ⟨[(["w"], .directory), (["w", "lib"], .directory), (["w", "src"], .directory),
    (["w", "src", "x.h"], .file (.text "class X {};\n")), (["w", "other"], .directory),
    (["w", "other", "y.h"], .file (.text "class Y {};\n"))]⟩

/-- The tests of the first header, on a path that goes up before the source directory. -/
def roundabout : Call := .tests (.tests false ⟨false, ["lib", "..", "src", "x.h"]⟩)

/-- The mock of the other header. -/
def elsewhere : Call := .mock ⟨false, ["lib", "..", "other", "y.h"]⟩

/-- The first call writes below `tests/ut` only, and the second is refused. -/
theorem roundabout_inside :
    (((roundabout.job Project.usual).run strayDisk).disk.find?
      ["w", "tests", "ut", "ut_x.cpp"]).isSome = true ∧
    (∀ l c, ((roundabout.job Project.usual).run strayDisk).disk.find? l = some (.file c) →
      strayDisk.find? l = some (.file c) ∨ ∃ L, L ≠ [] ∧ l = ["w", "tests", "ut"] ++ L) ∧
    (∃ q, ((elsewhere.job Project.usual).run strayDisk).value =
      .error (.outsideSourceTree q "src")) ∧
    ((elsewhere.job Project.usual).run strayDisk).disk = strayDisk := by
  have hfounded : Founded Project.usual ["w"] strayDisk :=
    ⟨by decide +kernel, by decide +kernel, by decide, by decide +kernel, by decide +kernel⟩
  have hlinks : strayDisk.Linkless := Disk.linkless_of_entries (by decide)
  obtain ⟨hinside, -⟩ := generated_inside hfounded (by decide +kernel)
    (show roundabout.Generates from trivial) rfl (by decide +kernel)
  obtain ⟨-, hrefused⟩ := generated_inside hfounded (by decide +kernel)
    (show elsewhere.Generates from trivial) rfl (by decide +kernel)
  refine ⟨by decide +kernel, fun l c hl => ?_, hrefused hlinks (by decide +kernel)
    (by decide +kernel) ?_⟩
  · rcases hinside l c hl with hold | ⟨A, hA, hrest⟩
    · exact .inl hold
    rw [Call.base_iff (A := ["lib", ".."]) (B := ["x.h"]) (by decide) (by decide)] at hA
    subst hA
    obtain ⟨-, hlocated⟩ := hrest (show ¬["tests", "ut"] <:+: ["lib", ".."] by decide)
    obtain ⟨G, L, hne, rfl, hG⟩ := hlocated hlinks
    have hroot : ((roundabout.job Project.usual).run strayDisk).disk.locate true
        (Project.usual.absolute ⟨false, ["lib", ".."]⟩) = .ok ["w"] := by decide +kernel
    rw [hroot] at hG
    cases hG
    exact .inr ⟨L, hne, rfl⟩
  · rintro ⟨A, B, -, -, hsplit, -⟩
    have hnot : "src" ∉ elsewhere.input.names := by decide
    exact hnot (by rw [hsplit]; exact List.mem_append_right _ List.mem_cons_self)

/-- A path that goes up from the source directory on leads out of the test tree: the
header is not in the source directory, and its test is written beside `tests/ut`. -/
theorem stray_test_written :
    (((Call.tests (.tests false ⟨false, ["src", "..", "other", "y.h"]⟩)).job Project.usual).run
      strayDisk).value.isOk = true ∧
    (((Call.tests (.tests false ⟨false, ["src", "..", "other", "y.h"]⟩)).job Project.usual).run
      strayDisk).disk.kindAt true ⟨true, ["w", "tests", "other", "ut_y.cpp"]⟩ = some .file := by
  decide +kernel

end Outputs

end Scaffold
