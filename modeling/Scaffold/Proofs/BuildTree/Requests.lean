import Scaffold.Proofs.BuildTree.Plans

/-!
# Jobs on build lists change build lists only

Every file that such a job writes has the name of a build list, and so
`refresh_keeps`: **without links, it leaves all other files as they are**.
-/
namespace Scaffold

open Artifact (BuildList)

theorem Path.absolute_child_segments (P : Project) (p : Path) (name : String) :
    ∃ S, (P.absolute (p.child name)).segments = S ++ [name] := by
  have hchild : p.child name = ⟨p.rooted, Path.openEnd p.segments ++ [name]⟩ := rfl
  rw [hchild]
  unfold Project.absolute Path.join
  split
  · exact ⟨_, rfl⟩
  · exact ⟨_, (List.append_assoc _ _ _).symm⟩

/-- The request changes no files but build lists. -/
abbrev ListRequest : Request → Prop := Disk.ChangesOnly BuildList.fileName

namespace BuildTree

theorem declare_asks (P : Project) (directory : Path) (child : String) :
    (declare P directory child).Asks ListRequest := by
  have hfile := Path.absolute_child_segments P directory BuildList.fileName
  unfold declare
  dsimp only
  split
  · exact Job.asks_report _ _ _
  · refine (Job.asks_tryText trivial).seq fun r => ?_
    split
    · split
      · exact Job.asks_report _ _ _
      · exact (Job.asks_append hfile).seq fun _ => Job.asks_report _ _ _
    · exact (Job.asks_makeDirs trivial).seq fun _ =>
        (Job.asks_write hfile).seq fun _ => Job.asks_report _ _ _
    · trivial

theorem declareUpTo_asks (P : Project) (top leaf : Path) :
    (declareUpTo P top leaf).Asks ListRequest := by
  fun_induction declareUpTo P top leaf with
  | case1 => trivial
  | case2 leaf _ parent child _ _ ih => exact (declare_asks P parent child).seq fun _ => ih
  | case3 => trivial

theorem registerChain_asks (P : Project) (leaf testRoot : Path) :
    (registerChain P leaf testRoot).Asks ListRequest := by
  unfold registerChain
  split
  · exact declareUpTo_asks P testRoot leaf
  · trivial

theorem filesAmong_asks (directory : Path) : ∀ names : List String,
    (filesAmong directory names).Asks ListRequest
  | [] => trivial
  | name :: names => by
      unfold filesAmong
      exact (Job.asks_isFile trivial).seq fun _ => (filesAmong_asks directory names).seq fun _ =>
        Job.asks_pure _

theorem compiledFiles_asks (P : Project) (directory : Path) :
    (compiledFiles P directory).Asks ListRequest := by
  unfold compiledFiles
  refine ⟨trivial, fun r => ?_⟩
  dsimp only
  split
  · exact (filesAmong_asks _ _).seq fun _ => Job.asks_pure _
  · trivial
  · trivial

theorem writeLeaf_asks (P : Project) (leaf sourceDir : Path) :
    (writeLeaf P leaf sourceDir).Asks ListRequest := by
  have hfile := Path.absolute_child_segments P leaf BuildList.fileName
  have hdirs : (includeDirs P).Asks ListRequest := by
    unfold includeDirs
    refine (Job.asks_isDirectory trivial).seq fun there => ?_
    split <;> trivial
  have hdeclared : (declaredAt (P.absolute (leaf.child BuildList.fileName))).Asks
      ListRequest := by
    unfold declaredAt
    refine (Job.asks_tryText trivial).seq fun r => ?_
    split <;> trivial
  have hwrite : ∀ b : BuildList, (writeArtifact .buildList
      (P.absolute (leaf.child BuildList.fileName)) (.buildList b)).Asks ListRequest := by
    intro b
    unfold writeArtifact
    refine (Job.asks_ofExcept _).seq fun t => ?_
    dsimp only
    split
    · split
      · exact Job.asks_write hfile
      · exact (Job.asks_makeDirs trivial).seq fun _ => Job.asks_write hfile
    · exact Job.asks_write hfile
  unfold writeLeaf
  dsimp only
  split
  · exact Job.asks_report _ _ _
  · refine (compiledFiles_asks P sourceDir).seq fun _ => ?_
    refine (compiledFiles_asks P leaf).seq fun _ => ?_
    exact hdirs.seq fun _ => hdeclared.seq fun _ => (hwrite _).seq fun _ => Job.asks_report _ _ _

end BuildTree

namespace Tests

theorem refresh_asks (P : Project) (sourceDir : Path) :
    (refresh P sourceDir).Asks ListRequest := by
  unfold refresh
  exact (Job.asks_ofExcept _).seq fun T =>
    (BuildTree.registerChain_asks P T _).seq fun _ => BuildTree.writeLeaf_asks P T sourceDir

/-- **Without links, refreshing build lists leaves all other files as they
are.** -/
theorem refresh_keeps (P : Project) (sourceDir : Path) {d : Disk} (hd : d.Linkless) {l : Location}
    {c : Content} (hl : l.getLast? ≠ some BuildList.fileName) (hf : d.find? l = some (.file c)) :
    (refresh P sourceDir).Ends (fun _ d' => d'.find? l = some (.file c))
      (fun _ d' => d'.find? l = some (.file c)) d := by
  have hkeeps : ∀ (d₁ : Disk) (q : Request), ListRequest q →
      (d₁.Linkless ∧ d₁.find? l = some (.file c)) →
      ((d₁.answer q).2.Linkless ∧ (d₁.answer q).2.find? l = some (.file c)) :=
    fun d₁ q hq h => ⟨Disk.answer_linkless h.1 q, Disk.answer_other (by decide) h.1 hl h.2 q hq⟩
  exact ((refresh_asks P sourceDir).keeps hkeeps ⟨hd, hf⟩).mono (fun _ _ h => h.2)
    fun _ _ h => h.2

end Tests

end Scaffold
