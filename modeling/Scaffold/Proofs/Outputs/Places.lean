import Scaffold.Proofs.Outputs.Handled
import Scaffold.Proofs.Path.Pieces

/-!
# Where a call writes

Whatever a call does, it does to one output after another. This says to which.

* `Handles` -- outputs handled one after another, each at a wanted place;
* `BuildTree.chain` -- the directories in which a chain declares, and
  `declareUpTo_eq`: **a chain is a loop over these**;
* `Tests.Place`, `Tests.At` -- the tests and lists that belong to the source
  directories that are visited; `generate_handles`, `generateTree_handles`: **these
  are the places where tests are generated**;
* `Mocks.Place` -- the files beside a marker, and `Mocks.generate_handles`.
-/
namespace Scaffold

open Artifact (BuildList)

/-- Outputs are handled one after another, each at a place that is wanted on the
disk as it is then. -/
def Handles (P : Project) (wanted : Disk → Path → Bool → Prop) :
    List Record → Disk → Disk → Prop :=
  Trail fun rs d d' => (∃ p overwrite, wanted d p overwrite ∧ Handled P p overwrite rs d d') ∧
    d.Reaches d'

variable {P : Project} {R : Location} {d d' : Disk} {p : Path} {overwrite : Bool}
  {wanted wanted' : Disk → Path → Bool → Prop} {rs : List Record} {α : Type}

theorem Handles.mono (h : ∀ d p o, wanted d p o → wanted' d p o) (ht : Handles P wanted rs d d') :
    Handles P wanted' rs d d' :=
  Trail.mono (fun ⟨⟨p, o, hp, hs⟩, hr⟩ => ⟨⟨p, o, h _ p o hp, hs⟩, hr⟩) ht

theorem Handles.nil (P : Project) (wanted : Disk → Path → Bool → Prop) (d : Disk) :
    Handles P wanted [] d d := Trail.nil d

/-- **What holds of each output that is handled holds of all of them together**, on
disks with what every request keeps. -/
theorem Handles.keeps {I : Disk → Prop} {K : List Record → Disk → Disk → Prop}
    (hI : ∀ d q, I d → I (d.answer q).2) (hnil : ∀ d, K [] d d)
    (happend : ∀ {rs rs' d d₁ d'}, K rs d d₁ → K rs' d₁ d' → K (rs ++ rs') d d')
    (hstep : ∀ {rs d d' p o}, I d → I d' → wanted d p o → Handled P p o rs d d' → K rs d d')
    (hd : I d) (h : Handles P wanted rs d d') : K rs d d' := by
  have hboth : I d → I d' ∧ K rs d d' :=
    Trail.keeps (K := fun rs d d' => I d → I d' ∧ K rs d d') (fun d hd => ⟨hd, hnil d⟩)
      (fun h h' hd => ⟨(h' (h hd).1).1, happend (h hd).2 (h' (h hd).1).2⟩)
      (fun ⟨⟨_, _, hp, hs⟩, hr⟩ hd => ⟨hr.keeps hI hd, hstep hd (hr.keeps hI hd) hp hs⟩) h
  exact (hboth hd).2

/-- One output. -/
theorem leaves_handles {t : Job α} (h : t.Leaves (Handled P p overwrite) d)
    (hp : wanted d p overwrite) : t.Leaves (Handles P wanted) d :=
  .single ⟨⟨p, overwrite, hp, h⟩, Job.run_reaches t d⟩

/-! ## 1. Chains -/

namespace BuildTree

/-- The directories in which a chain declares something, with what they declare. -/
def chain (top leaf : Path) : List (Path × String) :=
  if leaf.same top then []
  else
    match _h : leaf.parent?, leaf.fileName? with
    | some parent, some child => (parent, child) :: chain top parent
    | _, _ => []
termination_by leaf.segments.length
decreasing_by exact Path.length_parent?_lt _h

/-- **A chain is a loop.** -/
theorem declareUpTo_eq (P : Project) (top leaf : Path) :
    declareUpTo P top leaf = Job.each (fun x => declare P x.1 x.2) (chain top leaf) := by
  fun_induction chain top leaf with
  | case1 leaf hsame =>
    rw [declareUpTo, if_pos hsame]
    rfl
  | case2 leaf hsame parent child hp hc ih =>
    rw [declareUpTo, if_neg hsame]
    split
    · rename_i parent' child' hp' hc'
      cases hp.symm.trans hp'
      cases hc.symm.trans hc'
      exact congrArg (declare P parent child).bind (funext fun _ => ih)
    · rename_i hnone
      exact absurd hc (hnone parent child hp)
  | case3 leaf hsame hnone =>
    rw [declareUpTo, if_neg hsame]
    split
    · rename_i parent child hp hc
      exact absurd hc (hnone parent child hp)
    · rfl

/-- A chain below a path that never goes up stays there. -/
theorem chain_descends {top leaf : Path} (h : leaf.Descends) :
    ∀ x ∈ chain top leaf, x.1.Descends := by
  fun_induction chain top leaf with
  | case1 => exact fun _ hx => absurd hx List.not_mem_nil
  | case2 leaf _ parent child hp _ ih =>
    intro x hx
    rcases List.mem_cons.mp hx with rfl | hx
    · exact h.parent hp
    · exact ih (h.parent hp) x hx
  | case3 => exact fun _ hx => absurd hx List.not_mem_nil

theorem chain_openEnd {top leaf : Path} :
    ∀ x ∈ chain top leaf, Path.openEnd x.1.segments = x.1.segments := by
  fun_induction chain top leaf with
  | case1 => exact fun _ hx => absurd hx List.not_mem_nil
  | case2 leaf _ parent child hp _ ih =>
    intro x hx
    rcases List.mem_cons.mp hx with rfl | hx
    · exact Path.openEnd_parent hp
    · exact ih x hx
  | case3 => exact fun _ hx => absurd hx List.not_mem_nil

/-- A chain above a neat path goes through its beginnings. -/
theorem chain_prefix {top : Path} : ∀ {L : List String}, (∀ s ∈ L, Path.idle s = false) →
    ∀ x ∈ chain top ⟨false, L⟩, ∃ A B, L = A ++ B ∧ x.1 = ⟨false, A⟩ := by
  intro L
  induction L using List.reverseRecOn with
  | nil =>
    intro _ x hx
    rw [chain] at hx
    split at hx
    · exact absurd hx List.not_mem_nil
    · split at hx
      · rename_i hp _
        cases hp
      · exact absurd hx List.not_mem_nil
  | append_singleton L s ih =>
    intro hL x hx
    have hneat : (⟨false, L ++ [s]⟩ : Path).Neat := hL
    rw [chain] at hx
    split at hx
    · exact absurd hx List.not_mem_nil
    · split at hx
      · rename_i hp _
        rw [hneat.parent?] at hp
        cases hp
        rcases List.mem_cons.mp hx with rfl | hx
        · exact ⟨L, [s], rfl, rfl⟩
        · obtain ⟨A, B, rfl, hxA⟩ := ih (fun t ht => hL t (List.mem_append_left _ ht)) x hx
          exact ⟨A, B ++ [s], by rw [List.append_assoc], hxA⟩
      · exact absurd hx List.not_mem_nil

/-- A chain does not leave the path at its top. -/
theorem chain_below {T : List String} : ∀ {M : List String}, (∀ s ∈ T ++ M, Path.idle s = false) →
    ∀ x ∈ chain ⟨false, T⟩ ⟨false, T ++ M⟩, ∃ A B, M = A ++ B ∧ x.1 = ⟨false, T ++ A⟩ := by
  intro M
  induction M using List.reverseRecOn with
  | nil =>
    intro _ x hx
    rw [chain, if_pos (by simp [Path.same])] at hx
    exact absurd hx List.not_mem_nil
  | append_singleton M s ih =>
    intro hM x hx
    rw [← List.append_assoc] at hM hx
    have hneat : (⟨false, (T ++ M) ++ [s]⟩ : Path).Neat := hM
    rw [chain] at hx
    split at hx
    · exact absurd hx List.not_mem_nil
    · split at hx
      · rename_i hp _
        rw [hneat.parent?] at hp
        cases hp
        rcases List.mem_cons.mp hx with rfl | hx
        · exact ⟨M, [s], rfl, rfl⟩
        · obtain ⟨A, B, rfl, hxA⟩ := ih (fun t ht => hM t (List.mem_append_left _ ht)) x hx
          exact ⟨A, B ++ [s], by rw [List.append_assoc], hxA⟩
      · exact absurd hx List.not_mem_nil

/-- A chain declares in the directories that it goes through. -/
theorem registerChain_handles {leaf testRoot : Path}
    (hwanted : ∀ d', d.Reaches d' → ∀ x ∈ chain testRoot leaf,
      wanted d' (x.1.child BuildList.fileName) false) :
    (registerChain P leaf testRoot).Leaves (Handles P wanted) d := by
  unfold registerChain
  split
  · rw [declareUpTo_eq]
    exact Job.Leaves.each fun x hx d' hd' =>
      leaves_handles (declare_handled P (chain_openEnd x hx) x.2 d') (hwanted d' hd' x hx)
  · exact .nil P wanted d

end BuildTree

/-! ## 2. Tests -/

namespace Tests

/-- The files that belong to a source directory that is visited: the tests of its
headers, the lists above its test directory, and the list of that directory. The
last is always written anew. -/
inductive Place (P : Project) (overwrite : Bool) (S : Path) : Path → Bool → Prop
  | test {T header : Path} (hT : relocate S P.config.sourceDir testsDir = .ok T) :
      Place P overwrite S (T.child (testName header)) overwrite
  | above {T : Path} {x : Path × String} (hT : relocate S P.config.sourceDir testsDir = .ok T)
      (hx : x ∈ BuildTree.chain (testRootOf T) T) :
      Place P overwrite S (x.1.child BuildList.fileName) false
  | list {T : Path} (hT : relocate S P.config.sourceDir testsDir = .ok T) :
      Place P overwrite S (T.child BuildList.fileName) true

/-- The files that belong to one of the directories that may be visited, where it
is there. -/
def At (P : Project) (overwrite : Bool) (visited : Path → Prop) (d : Disk) (p : Path) (o : Bool) :
    Prop :=
  ∃ S, visited S ∧ d.kindAt true (P.absolute S) = some .directory ∧ Place P overwrite S p o

variable {visited : Path → Prop} {S : Path}

theorem at_grows {o : Bool} (hS : visited S) (hdir : d.kindAt true (P.absolute S) = some .directory)
    (hd' : d.Reaches d') (hp : Place P overwrite S p o) : At P overwrite visited d' p o :=
  ⟨S, hS, Disk.kindAt_grows hd'.grows hdir, hp⟩

/-- Without a test directory nothing is done. -/
theorem generateOne_outside {header : Path} {e : Failure} (hT : testDirOf P header = .error e) :
    generateOne P overwrite header = .fail e := by
  unfold generateOne
  rw [show relocate (header.parent?.getD Path.empty) P.config.sourceDir testsDir = .error e from hT]
  rfl

theorem generateOne_handles {header : Path} (hS : visited S)
    (hdir : d.kindAt true (P.absolute S) = some .directory)
    (hheader : testDirOf P header = relocate S P.config.sourceDir testsDir) :
    (generateOne P overwrite header).Leaves (Handles P (At P overwrite visited)) d := by
  cases hT : relocate S P.config.sourceDir testsDir with
  | ok T =>
    exact leaves_handles (generateOne_handled (hheader.trans hT) d)
      (at_grows hS hdir .refl (.test hT))
  | error e =>
    rw [generateOne_outside (hheader.trans hT)]
    exact .nil P _ d

theorem refresh_handles (hS : visited S)
    (hdir : d.kindAt true (P.absolute S) = some .directory) :
    (refresh P S).Leaves (Handles P (At P overwrite visited)) d := by
  unfold refresh
  refine Job.leaves_look (Job.reads_ofExcept _) (.nil P _ d) ?_
  rw [Job.ends_ofExcept]
  split
  · rename_i T hT
    refine Job.leaves_seq (BuildTree.registerChain_handles fun d' hd' x hx =>
      at_grows hS hdir hd' (.above hT hx)) fun _ => ?_
    exact leaves_handles (BuildTree.writeLeaf_handled P T S _)
      (at_grows hS hdir (Job.run_reaches _ d) (.list hT))
  · trivial

theorem headersIn_isReads (P : Project) (directory : Path) : (headersIn P directory).Reads :=
  (Job.reads_list _).seq fun _ => (filesIn_reads _ _ _).seq fun _ => Job.reads_pure _

/-- **The tests of a directory**, and the lists that belong to it. -/
theorem generateIn_handles (hnamed : d.Named) (hneat : S.Neat) (hS : visited S)
    (hdir : d.kindAt true (P.absolute S) = some .directory) :
    (generateIn P overwrite S).Leaves (Handles P (At P overwrite visited)) d := by
  unfold generateIn
  refine Job.leaves_look (headersIn_isReads P S) (.nil P _ d) ?_
  refine (headersIn_ends P S d).mono (fun hs _ h => ?_) fun _ _ _ => trivial
  obtain ⟨rfl, rfl⟩ := h
  split
  · exact .nil P _ _
  · refine Job.leaves_seq (Job.Leaves.each fun header hheader d' hd' => ?_) fun _ => ?_
    · obtain ⟨n, hn, rfl⟩ := List.mem_map.mp hheader
      exact generateOne_handles hS (Disk.kindAt_grows hd'.grows hdir)
        (testDirOf_child P hneat (BuildTree.filesAt_isName P hnamed hn).not_idle)
    · exact refresh_handles hS (Disk.kindAt_grows (Job.run_reaches _ _).grows hdir)

/-- A header has a name, and its parent is a directory. -/
theorem header_parent (h : Founded P R d) {L : List String} (hneat : (⟨false, L⟩ : Path).Neat)
    (hfile : d.kindAt true (P.absolute ⟨false, L⟩) = some .file)
    (hheader : P.isHeader ⟨false, L⟩ = true) :
    ∃ A n, L = A ++ [n] ∧ Path.IsName n ∧
      d.kindAt true (P.absolute ⟨false, A⟩) = some .directory := by
  obtain ⟨n, hn⟩ := Path.fileName?_of_hasExtension hheader
  obtain ⟨A, hA, hname⟩ := Path.fileName?_last hn
  rw [hneat.names] at hA
  change L = A ++ [n] at hA
  subst hA
  exact ⟨A, n, rfl, hname,
    h.above (fun t ht => hneat t (List.mem_append_left _ ht)) (by simp) hfile⟩

/-- **Generating tests for a path** writes where the directory belongs that the path
leads to, or the directory of the header. -/
theorem generate_handles {input : Path} (h : Founded P R d)
    (hvisited : ∀ rel, ((P.relative input).run d).value = .ok rel →
      visited rel ∧ visited (rel.parent?.getD Path.empty)) :
    (generate P overwrite input).Leaves (Handles P (At P overwrite visited)) d := by
  unfold generate
  refine Job.leaves_look (relative_isReads P input) (.nil P _ d) ?_
  refine ((Job.ends_value _ d).and (h.relative input)).mono (fun rel _ hrel => ?_)
    fun _ _ _ => trivial
  obtain ⟨hrel, L, rfl, hL⟩ := hrel
  obtain ⟨hown, hparent⟩ := hvisited _ hrel
  have hneat : (⟨false, L⟩ : Path).Neat := fun t ht => (hL t ht).1
  refine Job.leaves_look (Job.reads_kind _) (.nil P _ d) ?_
  rw [Job.ends_kind]
  split
  · rename_i hdir
    exact generateIn_handles h.named hneat hown hdir
  · rename_i hfile
    split
    · rename_i hheader
      obtain ⟨A, n, rfl, hn, hdir⟩ := header_parent h hneat hfile hheader
      rw [hneat.parent?, Option.getD_some] at hparent ⊢
      have hA : (⟨false, A⟩ : Path).Neat := fun t ht => hneat t (List.mem_append_left _ ht)
      refine Job.leaves_seq (generateOne_handles hparent hdir ?_) fun _ => ?_
      · rw [← testDirOf_child P hA hn.not_idle, hA.child]
      · exact refresh_handles hparent (Disk.kindAt_grows (Job.run_reaches _ d).grows hdir)
    · exact .nil P _ d
  · exact .nil P _ d

/-- **A walk through a tree** writes where the directories belong that it visits. -/
theorem generateBelow_handles
    (hdown : ∀ S s, visited S → Path.IsName s → visited ⟨S.rooted, S.segments ++ [s]⟩) :
    ∀ (fuel : Nat) (isLink : Bool) {S : Path} {d : Disk}, d.Named → S.Neat → visited S →
      (generateBelow P overwrite fuel isLink S).Leaves (Handles P (At P overwrite visited)) d
  | 0, _, _, d, _, _, _ => .nil P _ d
  | fuel + 1, isLink, S, d, hnamed, hneat, hS => by
      have hbelow : ∀ names : List String, (∀ s ∈ names, Path.IsName s) → ∀ d₁, d.Reaches d₁ →
          (Job.each (generateBelow P overwrite fuel false) (names.map S.child)).Leaves
            (Handles P (At P overwrite visited)) d₁ := by
        intro names hnames d₁ hd₁
        refine Job.Leaves.each fun sub hsub d₂ hd₂ => ?_
        obtain ⟨s, hs, rfl⟩ := List.mem_map.mp hsub
        have hd₂ : d₂.Named :=
          (hd₁.trans hd₂).keeps (I := Disk.Named) (fun _ q hd => Disk.answer_named hd q) hnamed
        refine generateBelow_handles hdown fuel false hd₂
          (Path.child_neat hneat (hnames s hs).not_idle) ?_
        rw [hneat.child]
        exact hdown S s hS (hnames s hs)
      unfold generateBelow
      refine Job.leaves_look (Job.reads_list _) (.nil P _ d) ?_
      rw [Job.ends_list]
      split
      · rename_i entries hlist
        obtain ⟨l, hl, hdir, rfl⟩ := Disk.listAt_eq_ok_iff.mp hlist
        have hnames : ∀ s ∈ BuildTree.inOrder (((d.children l).filter fun e =>
            e.2 == .directory).map Prod.fst), Path.IsName s := by
          intro s hs
          rw [BuildTree.mem_inOrder] at hs
          obtain ⟨⟨s, k⟩, hmem, rfl⟩ := List.mem_map.mp hs
          obtain ⟨e, he⟩ := Disk.find?_of_mem_children (List.mem_filter.mp hmem).1
          exact hnamed l s e he
        dsimp only
        split
        · exact hbelow _ hnames d .refl
        · exact Job.leaves_seq (generateIn_handles hnamed hneat hS
            (Disk.kindAt_eq_some_iff.mpr ⟨l, _, hl, hdir, rfl⟩))
            fun _ => hbelow _ hnames _ (Job.run_reaches _ d)
      · trivial

theorem Handles.visit {visited' : Path → Prop} (h : ∀ S, visited S → visited' S)
    (ht : Handles P (At P overwrite visited) rs d d') :
    Handles P (At P overwrite visited') rs d d' :=
  ht.mono fun _ _ _ ⟨S, hS, hrest⟩ => ⟨S, h S hS, hrest⟩

/-- **Generating the tests of a tree** writes where the directories of the tree
belong, or the directory of the header. -/
theorem generateTree_handles {input : Path} (h : Founded P R d)
    (hvisited : ∀ rel, ((P.relative input).run d).value = .ok rel →
      visited (rel.parent?.getD Path.empty) ∧
        ∀ N, (∀ s ∈ N, Path.IsName s) → visited ⟨rel.rooted, rel.segments ++ N⟩) :
    (generateTree P overwrite input).Leaves (Handles P (At P overwrite visited)) d := by
  unfold generateTree
  refine Job.leaves_look (relative_isReads P input) (.nil P _ d) ?_
  refine ((Job.ends_value _ d).and (h.relative input)).mono (fun rel _ hrel => ?_)
    fun _ _ _ => trivial
  obtain ⟨hrel, L, rfl, hL⟩ := hrel
  obtain ⟨hparent, hbelow⟩ := hvisited _ hrel
  have hneat : (⟨false, L⟩ : Path).Neat := fun t ht => (hL t ht).1
  refine Job.leaves_look (Job.reads_isDirectory _) (.nil P _ d) ?_
  rw [Job.ends_isDirectory]
  split
  · refine Job.leaves_look (Job.reads_ownKind _) (.nil P _ d) ?_
    rw [Job.ends_ownKind]
    have hwalk : ∀ isLink, (generateBelow P overwrite deepest isLink ⟨false, L⟩).Leaves
        (Handles P (At P overwrite fun S =>
          ∃ N, (∀ s ∈ N, Path.IsName s) ∧ S = ⟨false, L ++ N⟩)) d := by
      intro isLink
      refine generateBelow_handles (fun S s hS hs => ?_) _ _ h.named hneat ⟨[], by simp⟩
      obtain ⟨N, hN, rfl⟩ := hS
      refine ⟨N ++ [s], fun t ht => ?_, by rw [List.append_assoc]⟩
      rcases List.mem_append.mp ht with ht | ht
      · exact hN t ht
      · exact List.mem_singleton.mp ht ▸ hs
    exact (hwalk _).mono (Handles.visit fun S ⟨N, hN, hS⟩ => hS ▸ hbelow N hN)
  · -- the path is found as it is
    refine generate_handles h fun rel hrel' => ?_
    rw [relative_unrooted P rfl, hneat.names] at hrel'
    cases hrel'
    have hown := hbelow [] fun _ hs => absurd hs List.not_mem_nil
    rw [List.append_nil] at hown
    exact ⟨hown, hparent⟩

end Tests

/-! ## 3. Mocks -/

/-- No name has a slash in it. -/
def Disk.Unslashed (d : Disk) : Prop := ∀ l s e, d.find? (l ++ [s]) = some e → '/' ∉ s.toList

instance (d : Disk) : Decidable d.Unslashed := decidable_of_iff' _
  (Disk.forall_find?_iff (Q := fun _ s => '/' ∉ s.toList))

namespace Mocks

/-- The files of the mock of a header: its marker, and two beside it. -/
inductive Place (P : Project) (rel : Path) : Path → Prop
  | marker {M : Path} (hM : relocate rel P.config.sourceDir mocksDir = .ok M) : Place P rel M
  | beside {M : Path} {name : String} (hM : relocate rel P.config.sourceDir mocksDir = .ok M)
      (hname : Path.IsName name) (hslash : '/' ∉ name.toList) :
      Place P rel (M.withFileName name)

/-- The mock of a header is there already, and this is reported. -/
structure Marked (P : Project) (rel : Path) (rs : List Record) (d d' : Disk) : Prop where
  marker : ∃ M, relocate rel P.config.sourceDir mocksDir = .ok M ∧
    (d.kindAt true (P.absolute M)).isSome = true ∧ rs = [⟨M, .skippedExists, none⟩]
  same : d' = d

theorem writeAll_handles {keeps : Bool} {parameters : Artifact.Parameters} :
    ∀ {files : List (Artifact × Path)} {d : Disk},
      (∀ x ∈ files, ∀ d', wanted d' x.2 true) →
        (writeAll P keeps parameters files).Leaves (Handles P wanted) d
  | [], d, _ => .nil P wanted d
  | (artifact, file) :: rest, d, h => by
      unfold writeAll
      refine Job.leaves_seq (leaves_handles (writeOne_handled P keeps parameters artifact file d)
        (h _ List.mem_cons_self d)) fun wrote => ?_
      exact Job.leaves_value (writeAll_handles fun x hx => h x (List.mem_cons_of_mem _ hx))
        fun more => rfl

/-- A text that begins with a letter is a name. -/
theorem isName_of_head {s : String} {c : Char} (h : s.toList.head? = some c) (hc : c ≠ '.') :
    Path.IsName s := by
  refine ⟨?_, ?_, ?_⟩
  · rintro rfl
    cases h
  · rintro rfl
    exact hc (Option.some.inj h).symm
  · rintro rfl
    exact hc (Option.some.inj h).symm

/-- The names of the files of a mock are names, and have no slashes if that of the
header has none. -/
theorem mock_names {n : String} (h : '/' ∉ n.toList) :
    (Path.IsName ("mock_" ++ n) ∧ '/' ∉ ("mock_" ++ n).toList) ∧
      Path.IsName ("mock_" ++ (Path.cutName n).1 ++ ".cpp") ∧
        '/' ∉ ("mock_" ++ (Path.cutName n).1 ++ ".cpp").toList := by
  have hbegin : "mock_".toList = 'm' :: "ock_".toList := by decide
  have hend : '/' ∉ ".cpp".toList := by decide
  have hmock : '/' ∉ "mock_".toList := by decide
  refine ⟨⟨isName_of_head (c := 'm') ?_ (by decide), ?_⟩,
    isName_of_head (c := 'm') ?_ (by decide), ?_⟩
  · rw [String.toList_append, hbegin]
    rfl
  · rw [String.toList_append, List.mem_append, not_or]
    exact ⟨hmock, h⟩
  · rw [String.toList_append, String.toList_append, hbegin]
    rfl
  · rw [String.toList_append, String.toList_append, List.mem_append, List.mem_append, not_or, not_or]
    exact ⟨⟨hmock, Path.notMem_stem h⟩, hend⟩

/-- The name of a file that is read has no slash. -/
theorem notMem_fileName (hslash : d.Unslashed) {c : Content} (h : d.readAt p = .ok c) :
    '/' ∉ (p.fileName?.getD "").toList := by
  cases hn : p.fileName? with
  | none => decide
  | some n =>
    obtain ⟨A, hA, hname⟩ := Path.fileName?_last hn
    obtain ⟨l, hl, _⟩ := Disk.readAt_eq_ok_iff.mp h
    rw [Disk.locate_eq_ok_iff, Disk.resolve_eq_ok_iff] at hl
    have hmem : n ∈ p.names := by
      rw [hA]
      exact List.mem_append_right _ (List.mem_singleton_self n)
    obtain ⟨k, e, he⟩ := hl.2.names n (Path.mem_names hmem).2 hname
    exact hslash k n e he

/-- **Generating a mock** writes the files beside its marker, or finds the
marker. -/
theorem generate_handles {header : Path} (hslash : d.Unslashed) :
    (generate P header).Leaves (fun rs d₁ d' =>
      (∃ rel, ((P.relative header).run d).value = .ok rel ∧ Marked P rel rs d₁ d') ∨
        Handles P (fun _ p _ => ∃ rel, ((P.relative header).run d).value = .ok rel ∧ Place P rel p)
          rs d₁ d') d := by
  have hnil := Handles.nil P
    (fun _ p _ => ∃ rel, ((P.relative header).run d).value = .ok rel ∧ Place P rel p) d
  unfold generate
  refine Job.leaves_look (relative_isReads P header) (.inr hnil) ?_
  refine (Job.ends_value _ d).mono (fun rel _ hrel => ?_) fun _ _ _ => trivial
  split
  · exact .inr hnil
  refine Job.leaves_look (Job.reads_ofExcept _) (.inr hnil) ?_
  rw [Job.ends_ofExcept]
  split
  · rename_i M hM
    refine Job.leaves_look (Job.reads_exists _) (.inr hnil) ?_
    rw [Job.ends_exists]
    split
    · rename_i hthere
      exact Job.leaves_value (Job.leaves_report (.inl ⟨rel, hrel, ⟨M, hM, hthere, rfl⟩, rfl⟩))
        fun _ => rfl
    · refine Job.leaves_look (Job.reads_isFile _) (.inr hnil) ?_
      rw [Job.ends_isFile]
      split
      · exact .inr hnil
      · refine Job.leaves_look (Tests.describeHeader_isReads _) (.inr hnil) ?_
        refine (Tests.describeHeader_reads _ d).mono (fun h _ hread => ?_) fun _ _ _ => trivial
        obtain ⟨_, c, hc, rfl⟩ := hread
        obtain ⟨⟨hmock, hmock'⟩, hsource, hsource'⟩ := mock_names (notMem_fileName hslash hc)
        refine Job.Leaves.mono .inr (writeAll_handles fun x hx _ => ⟨rel, hrel, ?_⟩)
        simp only [files, List.mem_cons, List.not_mem_nil, or_false] at hx
        rcases hx with rfl | rfl | rfl
        · exact .beside hM hmock hmock'
        · exact .beside hM hsource hsource'
        · exact .marker hM
  · trivial

end Mocks

end Scaffold
