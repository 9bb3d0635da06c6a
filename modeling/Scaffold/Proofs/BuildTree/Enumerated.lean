import Scaffold.Proofs.BuildList.Reading
import Scaffold.Proofs.BuildTree.Sites
import Scaffold.Proofs.Path.Pieces

/-!
# What a test directory is built from

The build list of a test directory enumerates files of two directories. Here they are
told by the locations of the disk, without listing a directory, and in the lines of the
text, without the record that it is printed from.

* `HasSource` -- a regular file with an extension of compiled sources lies right inside
  a directory;
* `mem_compiledAt` -- **the compiled sources of a directory are these**, and
  `strict_compiledAt`: each comes once, in order;
* `writeLeaf_enumerates` -- **the lines of the executable are the compiled sources of the
  test directory and those under test**, and no others.
-/
namespace Scaffold

open Artifact (BuildList)
open Artifact.BuildList (InLine)

variable {P : Project} {d : Disk} {directory p : Path} {n : String}

/-! ## 1. Entries of a directory -/

/-- What a name in a directory leads to, where there are no links. -/
theorem Disk.kindAt_child {k : Location} (hlinks : d.Linkless) (hk : d.locate true p = .ok k)
    (hdir : d.find? k = some .directory) (hn : Path.IsName n) :
    d.kindAt true (p.child n) = (d.find? (k ++ [n])).map Entry.kind := by
  rw [Disk.locate_eq_ok_iff, Disk.resolve_eq_ok_iff] at hk
  -- a slash at the end of the path does not count
  have hopen : Disk.Way d true Disk.mostLinks [] (Path.openEnd p.segments) (.found k) := by
    unfold Path.openEnd
    split
    · rename_i hlast
      obtain ⟨S, hS⟩ := List.getLast?_eq_some_iff.mp (by simpa using hlast)
      rw [hS, List.dropLast_concat]
      have hway : Disk.Way d true Disk.mostLinks [] (S ++ [""]) (.found k) := hS ▸ hk.2
      refine hway.trim fun s hs => ?_
      rw [List.mem_singleton.mp hs]
      rfl
    · exact hk.2
  have hchild : p.child n = ⟨p.rooted, Path.openEnd p.segments ++ [n]⟩ := rfl
  have hresolve := Disk.resolve_concat (r := p.rooted) (f := true) hopen hn hdir
    (.inr fun t ht => hlinks _ _ ht rfl)
  unfold Disk.kindAt Disk.locate
  rw [hchild, hresolve]
  cases he : d.find? (k ++ [n]) with
  | none => rfl
  | some e => simp [he]

namespace BuildTree

/-- A regular file of a name lies right inside a directory of the project. -/
def HasFile (P : Project) (d : Disk) (directory : Path) (n : String) : Prop :=
  ∃ k c, d.locate true (P.absolute directory) = .ok k ∧ d.find? k = some .directory ∧
    d.find? (k ++ [n]) = some (.file c)

/-- It does, and the name has an extension of compiled sources. -/
def HasSource (P : Project) (d : Disk) (directory : Path) (n : String) : Prop :=
  HasFile P d directory n ∧ ∃ e ∈ P.config.sourceExtensions, (Path.cutName n).2 = some e

theorem HasFile.isName (hnamed : d.Named) (h : HasFile P d directory n) : Path.IsName n := by
  obtain ⟨k, c, _, _, he⟩ := h
  exact hnamed k n _ he

/-- **The files of a directory are the regular files right inside it**, also where there
is no such directory. -/
theorem mem_filesAt_iff (hnamed : d.Named) (hlinks : d.Linkless) {wanted : String → Bool} :
    n ∈ filesAt P d directory wanted ↔ wanted n = true ∧ HasFile P d directory n := by
  unfold filesAt
  split
  · rename_i entries hl
    obtain ⟨k, hk, hdir, rfl⟩ := Disk.listAt_eq_ok_iff.mp hl
    rw [mem_inOrder, List.mem_filter, List.mem_filter, beq_iff_eq]
    constructor
    · rintro ⟨⟨hmem, hw⟩, hkind⟩
      obtain ⟨⟨s, kind⟩, hentry, rfl⟩ := List.mem_map.mp hmem
      obtain ⟨e, he⟩ := Disk.find?_of_mem_children hentry
      rw [Disk.kindAt_child hlinks hk hdir (hnamed k s e he), he] at hkind
      cases e with
      | file c => exact ⟨hw, k, c, hk, hdir, he⟩
      | directory => cases hkind
      | link t => cases hkind
    · rintro ⟨hw, hfile⟩
      have hn := hfile.isName hnamed
      obtain ⟨k', c, hk', _, he⟩ := hfile
      cases hk.symm.trans hk'
      refine ⟨⟨List.mem_map.mpr ⟨_, Disk.mem_children he, rfl⟩, hw⟩, ?_⟩
      rw [Disk.kindAt_child hlinks hk hdir hn, he]
      rfl
  · rename_i hl
    refine iff_of_false (by simp) fun ⟨_, k, c, hk, hdir, _⟩ => ?_
    have := Disk.listAt_eq_ok_iff.mpr ⟨k, hk, hdir, rfl⟩
    rw [hl] at this
    cases this

theorem mem_compiledAt (hnamed : d.Named) (hlinks : d.Linkless) :
    n ∈ compiledAt P d directory ↔ HasSource P d directory n := by
  refine (mem_filesAt_iff hnamed hlinks).trans ⟨fun ⟨hw, hfile⟩ => ⟨hfile, ?_⟩, fun h => ⟨?_, h.1⟩⟩
  · exact (Path.hasExtension_child (hfile.isName hnamed)).mp hw
  · exact (Path.hasExtension_child (h.1.isName hnamed)).mpr h.2

/-- Each compiled source comes once, in order. -/
theorem strict_compiledAt (P : Project) (hdistinct : d.Distinct) (directory : Path) :
    (compiledAt P d directory).Pairwise (· < ·) :=
  ((sorted_filesAt P d directory _).and (nodup_filesAt P hdistinct directory _)).imp
    fun h => lt_of_le_of_ne h.1 h.2

/-! ## 2. The lines of the executable -/

/-- The source of a name, as the list refers to it. -/
theorem fromRoot_child {S : List String} (hS : ∀ s ∈ S, Path.IsName s) (hn : Path.IsName n) :
    BuildList.fromRoot ((⟨false, S⟩ : Path).child n) =
      "    $\x7bCMAKE_SOURCE_DIR\x7d/" ++ "/".intercalate (S ++ [n]) := by
  have hneat : (⟨false, S⟩ : Path).Neat := fun s hs => (hS s hs).not_idle
  have hchild : (⟨false, S ++ [n]⟩ : Path).Neat := Path.Neat.mk_append hneat hn.not_idle
  unfold BuildList.fromRoot
  rw [hneat.child, Path.spelled_names hchild]

theorem inLine_intercalate {sep : String} {L : List String} (hsep : InLine sep)
    (hL : ∀ s ∈ L, InLine s) : InLine (sep.intercalate L) :=
  ⟨Path.notMem_intercalate hsep.1 fun s hs => (hL s hs).1,
    Path.notMem_intercalate hsep.2 fun s hs => (hL s hs).2⟩

/-- **The list of a test directory enumerates just the right files.** Where no name holds
a line break, a list that was written has two groups of lines in the block of its
executable, and nothing else: the regular files right inside the test directory with an
extension of compiled sources, strictly in order, and behind them those of the source
directory but for the entry point, strictly in order too, by their paths from the root. -/
theorem writeLeaf_enumerates (P : Project) {L S : List String} {d : Disk}
    (hdistinct : d.Distinct) (hnamed : d.Named) (hlinks : d.Linkless)
    (hL : ∀ s ∈ L, Path.IsName s ∧ InLine s) (hS : ∀ s ∈ S, Path.IsName s ∧ InLine s)
    (hlines : ∀ l s e, d.find? (l ++ [s]) = some e → InLine s)
    (hex : P.excludes ((⟨false, L⟩ : Path).child BuildList.fileName) = false)
    (hok : ((writeLeaf P ⟨false, L⟩ ⟨false, S⟩).run d).value = .ok ()) :
    ∃ (text : String) (tests sources : List String),
      ((writeLeaf P ⟨false, L⟩ ⟨false, S⟩).run d).disk.readAt
        (P.absolute ((⟨false, L⟩ : Path).child BuildList.fileName)) = .ok (.text text) ∧
      BuildList.enumerated text = tests.map (fun n => "    " ++ n) ++
        sources.map (fun n => "    $\x7bCMAKE_SOURCE_DIR\x7d/" ++ "/".intercalate (S ++ [n])) ∧
      tests.Pairwise (· < ·) ∧ (∀ n, n ∈ tests ↔ HasSource P d ⟨false, L⟩ n) ∧
      sources.Pairwise (· < ·) ∧
      (∀ n, n ∈ sources ↔ HasSource P d ⟨false, S⟩ n ∧ some n ≠ P.config.entryPoint) := by
  rcases (writeLeaf_ends P ⟨false, L⟩ ⟨false, S⟩).of_run_ok hok with ⟨hexcluded, _⟩ | hwritten
  · rw [hex] at hexcluded
    cases hexcluded
  obtain ⟨_, d₁, _, hd'⟩ := hwritten
  have hinline : ∀ {directory : Path} {n : String}, n ∈ compiledAt P d directory → InLine n := by
    intro directory n hn
    obtain ⟨⟨k, c, _, _, he⟩, _⟩ := (mem_compiledAt hnamed hlinks).mp hn
    exact hlines k n _ he
  have hnames : ∀ s ∈ S, Path.IsName s := fun s hs => (hS s hs).1
  have hsources : (planned P d ⟨false, L⟩ ⟨false, S⟩).sources.map BuildList.fromRoot =
      ((compiledAt P d ⟨false, S⟩).filter fun n => some n != P.config.entryPoint).map fun n =>
        "    $\x7bCMAKE_SOURCE_DIR\x7d/" ++ "/".intercalate (S ++ [n]) := by
    change List.map _ (List.map _ _) = _
    rw [List.map_map]
    refine List.map_congr_left fun n hn => fromRoot_child hnames ?_
    exact filesAt_isName P hnamed (List.mem_filter.mp hn).1
  have hfiles : (planned P d ⟨false, L⟩ ⟨false, S⟩).files =
      (compiledAt P d ⟨false, L⟩).map (fun n => "    " ++ n) ++
        ((compiledAt P d ⟨false, S⟩).filter fun n => some n != P.config.entryPoint).map fun n =>
          "    $\x7bCMAKE_SOURCE_DIR\x7d/" ++ "/".intercalate (S ++ [n]) := by
    unfold BuildList.files
    rw [hsources]
    rfl
  refine ⟨_, compiledAt P d ⟨false, L⟩,
    (compiledAt P d ⟨false, S⟩).filter fun n => some n != P.config.entryPoint,
    Disk.readAt_changeAt hd', ?_, strict_compiledAt P hdistinct _,
    fun n => mem_compiledAt hnamed hlinks, (strict_compiledAt P hdistinct _).filter _,
    fun n => ?_⟩
  · rw [← hfiles]
    refine BuildList.enumerated_written ?_ fun l hl => ?_
    · -- the name of the target is put together from the steps of the path
      have hneat : (⟨false, L⟩ : Path).Neat := fun s hs => (hL s hs).1.not_idle
      change InLine ("_".intercalate _)
      rw [hneat.texts]
      exact inLine_intercalate (by decide) fun s hs => (hL s hs).2
    · rw [hfiles] at hl
      rcases List.mem_append.mp hl with hl | hl
      · obtain ⟨n, hn, rfl⟩ := List.mem_map.mp hl
        exact InLine.append (by decide) (hinline hn)
      · obtain ⟨n, hn, rfl⟩ := List.mem_map.mp hl
        refine InLine.append (by decide) (inLine_intercalate (by decide) fun s hs => ?_)
        rcases List.mem_append.mp hs with hs | hs
        · exact (hS s hs).2
        · rw [List.mem_singleton.mp hs]
          exact hinline (List.mem_filter.mp hn).1
  · rw [List.mem_filter, mem_compiledAt hnamed hlinks, bne_iff_ne]

/-- A project whose directories hold more than sources, in no order: headers, a directory
that is named like a source, a file without an extension, and the main function. -/
def mixedDisk : Disk :=
  ⟨[(["w"], .directory), (["w", "src"], .directory), (["w", "src", "core"], .directory),
    (["w", "src", "core", "z.c"], .file (.text "int z;\n")),
    (["w", "src", "core", "main.cpp"], .file (.text "int main() {}\n")),
    (["w", "src", "core", "a.h"], .file (.text "int a();\n")),
    (["w", "src", "core", "old.cpp"], .directory),
    (["w", "src", "core", "old.cpp", "b.cpp"], .file (.text "int b;\n")),
    (["w", "src", "core", "a.cpp"], .file (.text "int a;\n")),
    (["w", "tests"], .directory), (["w", "tests", "ut"], .directory),
    (["w", "tests", "ut", "ut_b.cpp"], .file (.text "int u;\n")),
    (["w", "tests", "ut", "README"], .file (.text "tests\n")),
    (["w", "tests", "ut", "ut_a.cpp"], .file (.text "int v;\n"))]⟩

/-- Its settings name the source with the main function. -/
def mixedProject : Project := ⟨⟨true, ["w"]⟩, { entryPoint := some "main.cpp" }, fun _ => false⟩

theorem mixed_enumerated : ∃ (text : String) (tests sources : List String),
    ((writeLeaf mixedProject ⟨false, ["tests", "ut"]⟩ ⟨false, ["src", "core"]⟩).run
        mixedDisk).disk.readAt ⟨true, ["w", "tests", "ut", "CMakeLists.txt"]⟩ =
      .ok (.text text) ∧
    BuildList.enumerated text = tests.map (fun n => "    " ++ n) ++
      sources.map (fun n => "    $\x7bCMAKE_SOURCE_DIR\x7d/" ++
        "/".intercalate (["src", "core"] ++ [n])) ∧
    tests.Pairwise (· < ·) ∧
      (∀ n, n ∈ tests ↔ HasSource mixedProject mixedDisk ⟨false, ["tests", "ut"]⟩ n) ∧
    sources.Pairwise (· < ·) ∧
      (∀ n, n ∈ sources ↔ HasSource mixedProject mixedDisk ⟨false, ["src", "core"]⟩ n ∧
        some n ≠ some "main.cpp") :=
  writeLeaf_enumerates mixedProject (by decide +kernel) (by decide +kernel)
    (Disk.linkless_of_entries (by decide +kernel)) (by decide) (by decide)
    (Disk.forall_find?_iff.mpr (by decide +kernel)) rfl (Job.ok_of_isOk (by decide +kernel))

end BuildTree

end Scaffold
