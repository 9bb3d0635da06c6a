import Scaffold.Proofs.Disk.Below
import Scaffold.Proofs.Outputs.Calls
import Scaffold.Proofs.Path.Pieces
import Scaffold.Proofs.Path.Relocated
import Scaffold.Proofs.Tests.Steps

/-!
# Which tests of a directory are kept

The tests of the headers of a directory are written one after the other, each under the
stem of its header.

* `Mirrors` -- a directory of the source tree and its test directory, by their names;
* `generateOne_files`, `generateAll_files` -- **a test file holds what was written to it
  last**, and no other file changes;
* `refresh_files` -- refreshing build lists changes build lists only;
* `testOf_inj` -- tests of one stem differ as their headers do;
* `directory_test_kept_iff`: **the test of a header is kept just when no header behind it
  has the same stem**.
-/
namespace Scaffold

open Artifact (BuildList)

variable {P : Project} {R : Location} {d d' : Disk} {L M : List String} {n m : String}

/-! ## 1. Locations -/

/-- On a standing project, names lead to what has them. -/
theorem Stands.located (h : Stands P R d) (hL : ∀ s ∈ L, Path.IsName s) {G : Location}
    (hG : d.locate true (P.absolute ⟨false, L⟩) = .ok G) : G = R ++ L := by
  have heq := h.locate_eq (Path.ofNames_mk hL).descends hG
  rwa [Path.Neat.names fun s hs => (hL s hs).not_idle] at heq

/-- What a file below the root holds is read at the path of its names. -/
theorem Stands.readAt_iff (h : Stands P R d) (hL : ∀ s ∈ L, Path.IsName s) {c : Content} :
    d.readAt (P.absolute ⟨false, L⟩) = .ok c ↔ d.find? (R ++ L) = some (.file c) := by
  rw [Disk.readAt_eq_ok_iff]
  constructor
  · rintro ⟨G, hG, hc⟩
    exact h.located hL hG ▸ hc
  · intro hc
    refine ⟨R ++ L, ?_, hc⟩
    rw [Disk.locate_eq_ok_iff, Disk.resolve_eq_ok_iff]
    refine ⟨absolute_ne_empty h.toFounded fun s hs => (hL s hs).not_idle, ?_⟩
    rw [absolute_unrooted P rfl]
    exact h.way.2.onward h.grounded hL (fun X _ _ t => h.linkless X t) hc

namespace Tests

/-! ## 2. Tests -/

/-- The directory with the names in the first list belongs to the source tree, and its test
directory has the names in the second one. -/
structure Mirrors (P : Project) (L M : List String) : Prop where
  names : ∀ s ∈ L, Path.IsName s
  relocate : relocate ⟨false, L⟩ P.config.sourceDir testsDir = .ok ⟨false, M⟩

theorem Mirrors.split (h : Mirrors P L M) :
    ∃ A B, L = A ++ P.config.sourceDir :: B ∧ M = A ++ ["tests", "ut"] ++ B := by
  obtain ⟨-, A, B, hL, -, hM⟩ := Path.relocate_cases (fun s hs => (h.names s hs).not_idle)
    (fun s hs => (Path.tests_neat s hs).not_idle) h.relocate
  exact ⟨A, B, hL, congrArg Path.segments hM⟩

theorem Mirrors.tests (h : Mirrors P L M) : ∀ s ∈ M, Path.IsName s := by
  obtain ⟨A, B, rfl, rfl⟩ := h.split
  intro s hs
  rcases List.mem_append.mp hs with hs | hs
  · rcases List.mem_append.mp hs with hs | hs
    · exact h.names s (List.mem_append_left _ hs)
    · exact Path.tests_neat s hs
  · exact h.names s (List.mem_append_right _ (List.mem_cons_of_mem _ hs))

/-- No header lies where a test does. -/
theorem Mirrors.ne (h : Mirrors P L M) (R : Location) (n m : String) :
    R ++ (L ++ [n]) ≠ R ++ (M ++ [m]) := by
  obtain ⟨A, B, rfl, rfl⟩ := h.split
  intro heq
  have hlength := congrArg List.length heq
  simp at hlength

/-- The text of the test of a header with the given content. -/
def testOf (P : Project) (L : List String) (n : String) (c : Content) : String :=
  Artifact.UnitTest.text (Cpp.describe n c.lenient) (P.includeSpelling ⟨false, L ++ [n]⟩)

/-- **The test of a header is written from what it holds**, and no other file changes. -/
theorem generateOne_files (h : Stands P R d) (hm : Mirrors P L M) (hn : Path.IsName n)
    (hex : ∀ p, P.excludes p = false) :
    (generateOne P true ⟨false, L ++ [n]⟩).Ends
      (fun _ d' => (∃ c, d.find? (R ++ (L ++ [n])) = some (.file c) ∧
          d'.find? (R ++ (M ++ [testFile n])) = some (.file (.text (testOf P L n c)))) ∧
        (∀ l c, l ≠ R ++ (M ++ [testFile n]) →
          (d'.find? l = some (.file c) ↔ d.find? l = some (.file c))) ∧ Stands P R d')
      (fun _ _ => True) d := by
  have hneat : (⟨false, L⟩ : Path).Neat := fun s hs => (hm.names s hs).not_idle
  have hT : testDirOf P ⟨false, L ++ [n]⟩ = .ok ⟨false, M⟩ := by
    have hchild := testDirOf_child P hneat hn.not_idle
    rw [hneat.child] at hchild
    exact hchild.trans hm.relocate
  have hname : testName ⟨false, L ++ [n]⟩ = testFile n := by
    unfold testName Path.fileStem?
    rw [Path.fileName?_concat hn]
    rfl
  have hfile : (⟨false, M⟩ : Path).child (testName ⟨false, L ++ [n]⟩) =
      ⟨false, M ++ [testFile n]⟩ := by
    rw [hname, Path.Neat.child (p := ⟨false, M⟩) fun s hs => (hm.tests s hs).not_idle]
  have hheader : (P.absolute ⟨false, L ++ [n]⟩).fileName? = some n := by
    rw [absolute_unrooted P rfl, ← List.append_assoc]
    exact Path.fileName?_concat hn
  have htest : Path.IsName (testFile n) := hname ▸ testName_isName _
  refine ((generateOne_writes _ hT (hex _) d).and (Job.ends_keeps
    (fun d q (hd : Stands P R d) => hd.answer q) _ d h)).mono
      (fun _ d' h' => ?_) fun _ _ _ => trivial
  rw [hfile, hheader] at h'
  obtain ⟨⟨-, ho, -⟩ | ⟨c, d₁, hc, -, hd₁, hwrite⟩, hstands⟩ := h'
  · cases ho
  obtain ⟨G, hne, hG, hput, -⟩ := Disk.changeAt_located hwrite
  obtain rfl := hstands.located (names_concat hm.tests htest) hG
  refine ⟨⟨c, (h.readAt_iff (names_concat hm.names hn)).mp hc, ?_⟩, fun l c' hl => ?_, hstands⟩
  · rw [hput, Disk.find?_put _ hne, if_pos rfl]
    rfl
  · rw [hput, Disk.find?_put_of_ne _ hne _ hl]
    exact hd₁.extends.file_iff c'

/-- **A test file holds what was written to it last**, and no other file changes. -/
theorem generateAll_files (hm : Mirrors P L M) (hex : ∀ p, P.excludes p = false) :
    ∀ {names : List String} {d : Disk}, Stands P R d → (∀ n ∈ names, Path.IsName n) →
      (Job.each (generateOne P true) (names.map fun n => ⟨false, L ++ [n]⟩)).Ends
        (fun _ d' => (∀ before n after, names = before ++ n :: after →
            (∀ m ∈ after, testFile m ≠ testFile n) →
            ∃ c, d.find? (R ++ (L ++ [n])) = some (.file c) ∧
              d'.find? (R ++ (M ++ [testFile n])) = some (.file (.text (testOf P L n c)))) ∧
          (∀ l c, (∀ n ∈ names, l ≠ R ++ (M ++ [testFile n])) →
            (d'.find? l = some (.file c) ↔ d.find? l = some (.file c))) ∧ Stands P R d')
        (fun _ _ => True) d
  | [], d, h, _ => ⟨fun before n after hsplit => by simp at hsplit, fun _ _ _ => Iff.rfl, h⟩
  | m :: names, d, h, hnames => by
      rw [List.map_cons]
      unfold Job.each
      rw [Job.ends_bind]
      refine (generateOne_files h hm (hnames m List.mem_cons_self) hex).mono (fun _ d₁ h₁ => ?_)
        fun _ _ _ => trivial
      obtain ⟨⟨c, hc, hfirst⟩, hothers, hstands⟩ := h₁
      refine (generateAll_files hm hex hstands fun n hn =>
        hnames n (List.mem_cons_of_mem m hn)).mono (fun _ d' h' => ?_) fun _ _ _ => trivial
      obtain ⟨hlast, hothers', hstands'⟩ := h'
      refine ⟨fun before n after hsplit hafter => ?_, fun l c hl => ?_, hstands'⟩
      · cases before with
        | nil =>
          obtain ⟨rfl, rfl⟩ := List.cons.inj hsplit
          refine ⟨c, hc, (hothers' _ _ fun m' hm' heq => ?_).mpr hfirst⟩
          exact hafter m' hm' (by simpa using heq.symm)
        | cons b before =>
          obtain ⟨rfl, hrest⟩ := List.cons.inj hsplit
          obtain ⟨c', hc', htest⟩ := hlast before n after hrest hafter
          exact ⟨c', (hothers _ _ (hm.ne R n _)).mp hc', htest⟩
      · rw [hothers' l c fun n hn => hl n (List.mem_cons_of_mem m hn)]
        exact hothers l c (hl m List.mem_cons_self)

/-! ## 3. Build lists -/

/-- Refreshing writes to build lists below the root. -/
theorem refresh_handles_lists (hm : Mirrors P L M) (d : Disk) :
    (refresh P ⟨false, L⟩).Leaves (Handles P fun _ p _ =>
      p.Descends ∧ p.names.getLast? = some BuildList.fileName) d := by
  have hplace : ∀ {K : Path}, K.Descends → (K.child BuildList.fileName).Descends ∧
      (K.child BuildList.fileName).names.getLast? = some BuildList.fileName := by
    intro K hK
    refine ⟨hK.child (by decide), ?_⟩
    change (List.filter _ (Path.openEnd K.segments ++ [BuildList.fileName])).getLast? = _
    rw [List.filter_append, List.filter_cons_of_pos (by decide), List.filter_nil,
      List.getLast?_concat]
  have hM : (⟨false, M⟩ : Path).Descends := (Path.ofNames_mk hm.tests).descends
  unfold refresh
  rw [hm.relocate]
  change (BuildTree.registerChain P ⟨false, M⟩ (testRootOf ⟨false, M⟩) >>= fun _ =>
    BuildTree.writeLeaf P ⟨false, M⟩ ⟨false, L⟩).Leaves _ d
  refine Job.leaves_seq (BuildTree.registerChain_handles fun _ _ x hx =>
    hplace (BuildTree.chain_descends hM x hx)) fun _ => ?_
  exact leaves_handles (BuildTree.writeLeaf_handled P ⟨false, M⟩ ⟨false, L⟩ _) (hplace hM)

/-- All files but build lists hold what they held. -/
def KeepsOthers (d d' : Disk) : Prop := ∀ l c, l.getLast? ≠ some BuildList.fileName →
  (d'.find? l = some (.file c) ↔ d.find? l = some (.file c))

/-- **Refreshing build lists changes no other files.** -/
theorem refresh_files (h : Stands P R d) (hm : Mirrors P L M) :
    KeepsOthers d ((refresh P ⟨false, L⟩).run d).disk := by
  refine Handles.keeps (I := Stands P R) (K := fun _ => KeepsOthers)
    (fun _ q hd => hd.answer q) (fun _ _ _ _ => Iff.rfl)
    (fun h h' l c hl => (h' l c hl).trans (h l c hl)) (fun hd hd' hp hs => ?_) h
    (refresh_handles_lists hm d)
  intro l c hl
  rcases hs.changes with ⟨hext, -⟩ | ⟨G, hchanged⟩
  · exact hext.file_iff c
  · refine hchanged.others l c fun heq => hl ?_
    rw [heq, hd'.locate_eq hp.1 hchanged.located, List.getLast?_append, hp.2]
    rfl

/-! ## 4. Tests of one stem -/

/-- A test begins with the name of its header. -/
theorem toList_testOf (P : Project) (L : List String) (n : String) (c : Content) :
    ∃ rest, (testOf P L n c).toList =
      "// Generated by testgen from ".toList ++ (n.toList ++ '.' :: rest) := by
  unfold testOf Artifact.UnitTest.text Artifact.UnitTest.lines Artifact.banner
  rw [Text.toList_unlines, List.cons_append, List.cons_append, List.flatMap_cons,
    String.toList_append, String.toList_append, List.append_assoc, List.append_assoc,
    List.append_assoc]
  exact ⟨_, rfl⟩

/-- **Tests of one stem differ as their headers do.** -/
theorem testOf_inj {e e' : String} {c c' : Content} (hn : (Path.cutName n).2 = some e)
    (hm : (Path.cutName m).2 = some e') (hstem : (Path.cutName m).1 = (Path.cutName n).1)
    (h : testOf P L m c' = testOf P L n c) : m = n := by
  obtain ⟨rest, hrest⟩ := toList_testOf P L n c
  obtain ⟨rest', hrest'⟩ := toList_testOf P L m c'
  obtain ⟨hn, hdot⟩ := Path.cutName_extension hn
  obtain ⟨hm, hdot'⟩ := Path.cutName_extension hm
  rw [h, hrest] at hrest'
  have hrest' := List.append_cancel_left hrest'
  rw [hn, hm, hstem, List.append_assoc, List.append_assoc] at hrest'
  have hrest' := List.append_cancel_left hrest'
  -- an extension ends where the next dot stands
  have hcut : ∀ {x r : List Char}, '.' ∉ x → (x ++ '.' :: r).takeWhile (· != '.') = x := by
    intro x r hx
    rw [List.takeWhile_append_of_pos fun a ha => by simpa using ne_of_mem_of_not_mem ha hx]
    simp
  have hext : e.toList = e'.toList := by
    have hrest' : e.toList ++ '.' :: rest = e'.toList ++ '.' :: rest' := (List.cons.inj hrest').2
    rw [← hcut (r := rest) hdot, hrest', hcut hdot']
  rw [← String.toList_inj, hm, hn, hstem, hext]

/-- Where something in a list has a property, something has it last. -/
theorem exists_last {α : Type} {p : α → Prop} {l : List α} (h : ∃ a ∈ l, p a) :
    ∃ before b after, l = before ++ b :: after ∧ p b ∧ ∀ x ∈ after, ¬p x := by
  induction l using List.reverseRecOn with
  | nil =>
    obtain ⟨a, ha, -⟩ := h
    cases ha
  | append_singleton l x ih =>
    by_cases hx : p x
    · exact ⟨l, x, [], rfl, hx, fun y hy => absurd hy List.not_mem_nil⟩
    · obtain ⟨a, ha, hp⟩ := h
      have ha : a ∈ l := by
        rcases List.mem_append.mp ha with ha | ha
        · exact ha
        · exact absurd (List.mem_singleton.mp ha ▸ hp) hx
      obtain ⟨before, b, after, rfl, hb, hafter⟩ := ih ⟨a, ha, hp⟩
      refine ⟨before, b, after ++ [x], by simp, hb, fun y hy => ?_⟩
      rcases List.mem_append.mp hy with hy | hy
      · exact hafter y hy
      · exact List.mem_singleton.mp hy ▸ hx

/-- In a sorted list, what has a property last is the greatest that has it. -/
theorem last_eq_iff {α : Type} [PartialOrder α] {p : α → Prop} {before after : List α} {a b : α}
    (hsorted : (before ++ b :: after).Pairwise (· ≤ ·)) (hb : p b) (hafter : ∀ x ∈ after, ¬p x)
    (ha : a ∈ before ++ b :: after) (hp : p a) :
    b = a ↔ ∀ x ∈ before ++ b :: after, p x → x ≤ a := by
  have hmost : ∀ x ∈ before ++ b :: after, p x → x ≤ b := by
    intro x hx hp
    rcases List.mem_append.mp hx with hx | hx
    · exact (List.pairwise_append.mp hsorted).2.2 x hx b List.mem_cons_self
    rcases List.mem_cons.mp hx with rfl | hx
    · exact le_refl _
    · exact absurd hp (hafter x hx)
  constructor
  · rintro rfl
    exact hmost
  · intro hgreatest
    exact le_antisymm (hgreatest b (by simp) hb) (hmost a ha hp)

/-! ## 5. Kept tests -/

theorem headersAt_extension {directory : Path} (hd : d.Named) (hn : n ∈ headersAt P d directory) :
    Path.IsName n ∧ ∃ e, (Path.cutName n).2 = some e := by
  have hname : Path.IsName n := BuildTree.filesAt_isName P hd hn
  obtain ⟨e, -, he⟩ := (Path.hasExtension_child hname).mp (BuildTree.wanted_of_mem_filesAt hn)
  exact ⟨hname, e, he⟩

/-- What is a header holds something. -/
theorem header_holds (h : Stands P R d) (hm : Mirrors P L M)
    (hn : n ∈ headersAt P d ⟨false, L⟩) : ∃ c, d.find? (R ++ (L ++ [n])) = some (.file c) := by
  have hname : Path.IsName n := (headersAt_extension h.named hn).1
  have hneat : (⟨false, L⟩ : Path).Neat := fun s hs => (hm.names s hs).not_idle
  have hne : L ≠ [] := by
    obtain ⟨A, B, rfl, -⟩ := hm.split
    simp
  have hkind := ((BuildTree.mem_filesAt P hneat hne hname).mp hn).2
  rw [hneat.child] at hkind
  obtain ⟨l, e, hl, he, hfile⟩ := Disk.kindAt_eq_some_iff.mp hkind
  obtain rfl := h.located (names_concat hm.names hname) hl
  cases e with
  | file c => exact ⟨c, he⟩
  | directory => cases hfile
  | link t => cases hfile

/-- Generating the tests of a directory leaves, for each stem, the test of the last header
that has it. -/
theorem generateIn_files (h : Stands P R d) (hm : Mirrors P L M) (hex : ∀ p, P.excludes p = false) :
    (generateIn P true ⟨false, L⟩).Ends
      (fun _ d' => ∀ before n after, headersAt P d ⟨false, L⟩ = before ++ n :: after →
        (∀ m ∈ after, testFile m ≠ testFile n) →
        ∃ c, d.find? (R ++ (L ++ [n])) = some (.file c) ∧
          d'.find? (R ++ (M ++ [testFile n])) = some (.file (.text (testOf P L n c))))
      (fun _ _ => True) d := by
  have hneat : (⟨false, L⟩ : Path).Neat := fun s hs => (hm.names s hs).not_idle
  unfold generateIn
  rw [Job.ends_seq]
  refine (headersIn_ends P ⟨false, L⟩ d).mono (fun hs d₀ h₀ => ?_) fun _ _ _ => trivial
  obtain ⟨rfl, rfl⟩ := h₀
  split
  · rename_i hempty
    intro before n after hsplit
    rw [List.isEmpty_map, hsplit] at hempty
    cases before <;> cases hempty
  rw [Job.ends_seq, funext hneat.child]
  refine (generateAll_files hm hex h fun n hn => (headersAt_extension h.named hn).1).mono
    (fun _ d₁ h₁ => ?_) fun _ _ _ => trivial
  obtain ⟨hlast, -, hstands⟩ := h₁
  refine (Job.ends_disk _ d₁).mono (fun _ d' h' => ?_) fun _ _ _ => trivial
  intro before n after hsplit hafter
  obtain ⟨c, hc, htest⟩ := hlast before n after hsplit hafter
  refine ⟨c, hc, ?_⟩
  rw [h', refresh_files hstands hm _ _ ?_]
  · exact htest
  · rw [← List.append_assoc, List.getLast?_concat]
    exact fun heq => testFile_ne_fileName n (Option.some.inj heq)

theorem sorted_headersAt (P : Project) (d : Disk) (directory : Path) :
    (headersAt P d directory).Pairwise (· ≤ ·) :=
  sorted_filesAt P d directory fun name => P.isHeader (directory.child name)

/-- Where each test file holds the test of the last header it is for, a header has its own
test there just when no header behind it has the same stem. -/
theorem Mirrors.kept_iff (hm : Mirrors P L M) (h : Stands P R d) (h' : Stands P R d')
    (hfiles : ∀ before n after, headersAt P d ⟨false, L⟩ = before ++ n :: after →
      (∀ m ∈ after, testFile m ≠ testFile n) →
      ∃ c, d.find? (R ++ (L ++ [n])) = some (.file c) ∧
        d'.find? (R ++ (M ++ [testFile n])) = some (.file (.text (testOf P L n c))))
    (hn : n ∈ headersAt P d ⟨false, L⟩) {c : Content}
    (hc : d.find? (R ++ (L ++ [n])) = some (.file c)) :
    d'.readAt (P.absolute ((⟨false, M⟩ : Path).child (testFile n))) =
        .ok (.text (testOf P L n c)) ↔
      ∀ m ∈ headersAt P d ⟨false, L⟩, (Path.cutName m).1 = (Path.cutName n).1 → m ≤ n := by
  obtain ⟨-, e, he⟩ := headersAt_extension h.named hn
  have hneat : (⟨false, M⟩ : Path).Neat := fun s hs => (hm.tests s hs).not_idle
  have htestName : Path.IsName (testFile n) := (testFile_name n).1
  -- the last header of the stem is the one whose test is there
  obtain ⟨before, x, after, hsplit, hx, hafter⟩ :=
    exists_last (p := fun m => testFile m = testFile n) ⟨n, hn, rfl⟩
  obtain ⟨c', hc', hlast⟩ := hfiles before x after hsplit fun m hm heq => hafter m hm (heq.trans hx)
  have hxmem : x ∈ headersAt P d ⟨false, L⟩ := by simp [hsplit]
  obtain ⟨-, e', he'⟩ := headersAt_extension h.named hxmem
  have hheld : d'.readAt (P.absolute ((⟨false, M⟩ : Path).child (testFile n))) =
      .ok (.text (testOf P L n c)) ↔ x = n := by
    rw [hneat.child, h'.readAt_iff (names_concat hm.tests htestName), ← hx, hlast]
    constructor
    · intro htext
      have htext : testOf P L x c' = testOf P L n c := by simpa using htext
      exact testOf_inj he he' (testFile_eq_iff.mp hx) htext
    · rintro rfl
      rw [hc] at hc'
      cases hc'
      rfl
  have hsorted := sorted_headersAt P d ⟨false, L⟩
  rw [hsplit] at hsorted hn ⊢
  rw [hheld, last_eq_iff (p := fun m => testFile m = testFile n) hsorted hx hafter hn rfl]
  simp only [testFile_eq_iff]

variable {input rel : Path}

/-- **The test of a header is kept just when no header behind it has the same stem**: all
the tests of a directory are generated anew, in the order of the headers, and those of one
stem go to one file. -/
theorem directory_test_kept_iff (h : Stands P R d)
    (hrel : ((P.relative input).run d).value = .ok rel) (hnames : rel.OfNames)
    (hdir : d.kindAt true (P.absolute rel) = some .directory) (hex : ∀ p, P.excludes p = false)
    (hok : ((generate P true input).run d).value = .ok ()) (hn : n ∈ headersAt P d rel) :
    ∃ T c, relocate rel P.config.sourceDir testsDir = .ok T ∧
      d.readAt (P.absolute (rel.child n)) = .ok c ∧
      (((generate P true input).run d).disk.readAt (P.absolute (T.child (testFile n))) =
          .ok (.text (testOf P rel.segments n c)) ↔
        ∀ m ∈ headersAt P d rel, (Path.cutName m).1 = (Path.cutName n).1 → m ≤ n) := by
  obtain ⟨L, rfl⟩ : ∃ L, rel = ⟨false, L⟩ := ⟨_, hnames.eq⟩
  have hL : ∀ s ∈ L, Path.IsName s := hnames.isName
  cases hT : relocate ⟨false, L⟩ P.config.sourceDir testsDir with
  | error e =>
    exact ((generate_directory hrel hdir (generateIn_outside P true hT
      (List.ne_nil_of_mem hn))).of_run_ok hok).elim
  | ok T =>
    obtain ⟨M, rfl⟩ : ∃ M, T = ⟨false, M⟩ := by
      obtain ⟨-, A, B, -, -, rfl⟩ := Path.relocate_cases (fun s hs => (hL s hs).not_idle)
        (fun s hs => (Path.tests_neat s hs).not_idle) hT
      exact ⟨_, rfl⟩
    have hm : Mirrors P L M := ⟨hL, hT⟩
    have hfiles := (generate_directory hrel hdir (generateIn_files h hm hex)).of_run_ok hok
    have hstands : Stands P R ((generate P true input).run d).disk :=
      (Job.run_reaches _ d).keeps (fun _ q hd => hd.answer q) h
    generalize ((generate P true input).run d).disk = d' at hfiles hstands ⊢
    obtain ⟨c, hc⟩ := header_holds h hm hn
    refine ⟨_, c, rfl, ?_, hm.kept_iff h hstands hfiles hn hc⟩
    have hneat : (⟨false, L⟩ : Path).Neat := fun s hs => (hL s hs).not_idle
    rw [hneat.child]
    exact (h.readAt_iff (names_concat hL (headersAt_extension h.named hn).1)).mpr hc

/-- A project with two headers of one stem. -/
def stemDisk : Disk :=
  ⟨[(["w"], .directory), (["w", "src"], .directory),
    (["w", "src", "foo.h"], .file (.text "class Foo {};\n")),
    (["w", "src", "foo.hpp"], .file (.text "class Bar {};\n"))]⟩

/-- Generating their tests. -/
abbrev stemRun : Job Unit := generate Project.usual true ⟨false, ["src"]⟩

theorem stemDisk_stands : Stands Project.usual ["w"] stemDisk :=
  ⟨⟨by decide +kernel, by decide +kernel, by decide, by decide +kernel, by decide +kernel⟩,
    fun _ _ hl => Disk.linkless_of_entries (d := stemDisk) (by decide) _ _ hl rfl⟩

/-- The test of the last header is kept. -/
theorem last_header_test_kept : (stemRun.run stemDisk).disk.readAt
    ⟨true, ["w", "tests", "ut", "ut_foo.cpp"]⟩ =
      .ok (.text (testOf Project.usual ["src"] "foo.hpp" (.text "class Bar {};\n"))) := by
  obtain ⟨T, c, hT, hc, hkept⟩ := directory_test_kept_iff (n := "foo.hpp") stemDisk_stands
    (show ((Project.usual.relative ⟨false, ["src"]⟩).run stemDisk).value = .ok ⟨false, ["src"]⟩
      by decide +kernel)
    (Path.ofNames_mk (by decide)) (by decide +kernel) (fun _ => rfl)
    (Job.ok_of_isOk (by decide +kernel)) (by decide +kernel)
  have hheaders : headersAt Project.usual stemDisk ⟨false, ["src"]⟩ = ["foo.h", "foo.hpp"] := by
    decide +kernel
  cases hT
  cases hc
  refine hkept.mpr ?_
  rw [hheaders]
  decide +kernel

/-- The test of the other one is nowhere. -/
theorem same_stem_test_lost : (stemRun.run stemDisk).value = .ok () ∧
    "foo.h" ∈ headersAt Project.usual stemDisk ⟨false, ["src"]⟩ ∧
    ∀ l, (stemRun.run stemDisk).disk.find? l ≠ some (.file (.text
      (testOf Project.usual ["src"] "foo.h" (.text "class Foo {};\n")))) := by
  refine ⟨Job.ok_of_isOk (by decide +kernel), by decide +kernel, fun l hl => ?_⟩
  have hnone : (stemRun.run stemDisk).disk.entries.all (fun x => x.2 != .file (.text
      (testOf Project.usual ["src"] "foo.h" (.text "class Foo {};\n")))) = true := by
    decide +kernel
  rw [Disk.find?_of_ne_nil _ (Disk.ne_nil_of_file hl), List.lookup_eq_some_iff] at hl
  obtain ⟨before, after, hentries, -⟩ := hl
  rw [hentries, List.all_append, List.all_cons] at hnone
  simp at hnone

end Tests

end Scaffold
