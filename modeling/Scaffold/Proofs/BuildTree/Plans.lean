import Scaffold.BuildTree
import Scaffold.Proofs.Job.Runs
import Scaffold.Proofs.Path.Neat

/-!
# What is written to build lists

For each job on build lists, all that it may do to a disk.

* `writeArtifact_ends` -- an artifact is written, with the directories above it;
* `Declared` -- the three ways in which a subdirectory comes to be declared, and
  `declare_ends`: **declaring takes one of them**;
* `planned` -- the build list of a test directory as a disk has it, and
  `writeLeaf_ends`: **this is what is written**.
-/
namespace Scaffold

open Artifact (BuildList)

/-- A project with the usual settings and no excluded files. -/
def Project.usual : Project := ⟨⟨true, ["w"]⟩, {}, fun _ => false⟩

/-! ## 1. Artifacts -/

/-- The disk on which a file is written after the directories above it were
made. -/
def Disk.Prepared (d : Disk) (target : Path) (d₁ : Disk) : Prop :=
  d₁ = d ∨ ∃ parent, target.parent? = some parent ∧ parent.text ≠ "" ∧
    d.makeDirs parent = (.ok (), d₁)

theorem Disk.Prepared.extends {d d₁ : Disk} {target : Path} (h : d.Prepared target d₁) :
    d.Extends d₁ := by
  rcases h with rfl | ⟨parent, _, _, h⟩
  · exact .refl d₁
  · have := d.makeDirs_extends parent
    rwa [h] at this

/-- Writing an artifact makes directories, if any, and writes its text. Where
that goes wrong, no file changes. -/
theorem writeArtifact_ends (artifact : Artifact) (target : Path) (parameters : Artifact.Parameters)
    (d : Disk) : (writeArtifact artifact target parameters).Ends
      (fun _ d' => ∃ t d₁, artifact.render parameters = .ok t ∧ d.Prepared target d₁ ∧
        d₁.changeAt target (fun _ => .text t) = .ok d')
      (fun e d' => e.isUserError = false ∧ d.Extends d') d := by
  have hwrite : ∀ t d₁, artifact.render parameters = .ok t → d.Prepared target d₁ →
      (Job.write target t).Ends
        (fun _ d' => ∃ t d₁, artifact.render parameters = .ok t ∧ d.Prepared target d₁ ∧
          d₁.changeAt target (fun _ => .text t) = .ok d')
        (fun e d' => e.isUserError = false ∧ d.Extends d') d₁ := by
    intro t d₁ ht hd₁
    rw [Job.ends_write]
    split
    · rename_i d' hd'
      exact ⟨t, d₁, ht, hd₁, hd'⟩
    · exact ⟨rfl, hd₁.extends⟩
  unfold writeArtifact
  rw [Job.ends_seq, Job.ends_ofExcept]
  split
  · rename_i t ht
    dsimp only
    split
    · rename_i parent hparent
      split
      · exact hwrite t d ht (.inl rfl)
      · rename_i htext
        have hext := d.makeDirs_extends parent
        rw [Job.ends_seq, Job.ends_makeDirs]
        split
        · rename_i d₁ hd₁
          exact hwrite t d₁ ht (.inr ⟨parent, hparent, by simpa using htext, hd₁⟩)
        · rename_i f d₁ hd₁
          rw [hd₁] at hext
          exact ⟨rfl, hext⟩
    · exact hwrite t d ht (.inl rfl)
  · rename_i e he
    have : ∀ {a : Artifact} {ps : Artifact.Parameters} {e : Failure}, a.render ps = .error e →
        e.isUserError = false := by
      intro a ps e h
      unfold Artifact.render at h
      split at h <;> cases h
      rfl
    exact ⟨this he, .refl d⟩

theorem kindAt_of_readAt {d : Disk} {p : Path} {c : Content} (h : d.readAt p = .ok c) :
    d.kindAt true p = some .file := by
  obtain ⟨l, hl, he⟩ := Disk.readAt_eq_ok_iff.mp h
  exact Disk.kindAt_eq_some_iff.mpr ⟨l, _, hl, he, rfl⟩

namespace BuildTree

/-! ## 2. Declaring a subdirectory -/

/-- The ways in which the build list of a directory comes to declare a child,
with the disk before and after: it shows the declaration already, it is given a
further line, or it is started. -/
inductive Declared (P : Project) (directory : Path) (child : String) (d d' : Disk) : Prop
  | shown (t : String)
      (h : d.readAt (P.absolute (directory.child BuildList.fileName)) = .ok (.text t))
      (hin : occursIn (BuildList.declaration child).toList t.toList = true) (hd : d' = d)
  | appended (t : String)
      (h : d.readAt (P.absolute (directory.child BuildList.fileName)) = .ok (.text t))
      (hin : occursIn (BuildList.declaration child).toList t.toList = false)
      (hd : d.changeAt (P.absolute (directory.child BuildList.fileName)) (fun old =>
        (old.getD (.text "")).append (separator t ++ BuildList.declaration child ++ "\n")) = .ok d')
  | started (d₁ : Disk)
      (h : d.readAt (P.absolute (directory.child BuildList.fileName)) = .error .notFound)
      (hd₁ : d.makeDirs (P.absolute directory) = (.ok (), d₁))
      (hd : d₁.changeAt (P.absolute (directory.child BuildList.fileName))
        (fun _ => .text (BuildList.started child)) = .ok d')

theorem asText_eq_ok {r : Except Fault Content} {t : String} (h : Job.asText r = .ok t) :
    r = .ok (.text t) := by
  unfold Job.asText at h
  split at h <;> cases h
  rfl

theorem asText_eq_notFound {r : Except Fault Content} (h : Job.asText r = .error .notFound) :
    r = .error .notFound := by
  unfold Job.asText at h
  split at h <;> cases h
  rfl

/-- **A declaration that goes well takes one of these ways**, unless the list is
excluded. What goes wrong is never a mistake of the user, and does not touch
any file. -/
theorem declare_ends (P : Project) (directory : Path) (child : String) (d : Disk) :
    (declare P directory child).Ends
      (fun _ d' => (P.excludes (directory.child BuildList.fileName) = true ∧ d' = d) ∨
        Declared P directory child d d')
      (fun e d' => e.isUserError = false ∧ d.Extends d') d := by
  unfold declare
  simp only
  split
  · rename_i hex
    exact .inl ⟨hex, rfl⟩
  · rw [Job.ends_seq, Job.ends_tryText]
    split
    · rename_i t ht
      have ht := asText_eq_ok ht
      split
      · rename_i hin
        exact .inr (.shown t ht hin rfl)
      · rename_i hin
        rw [Job.ends_seq, Job.ends_append]
        split
        · rename_i d' hd'
          exact .inr (.appended t ht (by simpa using hin) hd')
        · exact ⟨rfl, .refl d⟩
    · rename_i ht
      have ht := asText_eq_notFound ht
      rw [Job.ends_seq, Job.ends_makeDirs]
      have hext := d.makeDirs_extends (P.absolute directory)
      split
      · rename_i d₁ hd₁
        rw [hd₁] at hext
        rw [Job.ends_seq, Job.ends_write]
        split
        · rename_i d' hd'
          exact .inr (.started d₁ ht hd₁ hd')
        · exact ⟨rfl, hext⟩
      · rename_i f d₁ hd₁
        rw [hd₁] at hext
        exact ⟨rfl, hext⟩
    · exact ⟨rfl, .refl d⟩

/-! ## 3. The list of a test directory -/

/-- The files right inside a directory whose names are as wanted, as a disk has
them. -/
def filesAt (P : Project) (d : Disk) (directory : Path) (wanted : String → Bool) : List String :=
  match d.listAt (P.absolute directory) with
  | .ok entries => inOrder <| ((entries.map Prod.fst).filter wanted).filter fun name =>
      d.kindAt true ((P.absolute directory).child name) == some .file
  | .error _ => []

/-- The compiled sources right inside a directory, as a disk has them. -/
def compiledAt (P : Project) (d : Disk) (directory : Path) : List String :=
  filesAt P d directory fun name => P.isSource (directory.child name)

/-- The include directories of a test, as a disk has them. -/
def includeDirsAt (P : Project) (d : Disk) : List Path :=
  let source := Path.ofText P.config.sourceDir
  let inner := source.join (Path.ofText P.config.includeDir)
  if d.kindAt true (P.absolute inner) == some .directory then [source, inner] else [source]

/-- The text of the file at a path, as a disk has it. -/
def textAt (d : Disk) (file : Path) : Option String :=
  match d.readAt file with
  | .ok (.text t) => some t
  | _ => none

/-- The subdirectories that the list at a path declares, as a disk has it. -/
def subdirectoriesAt (d : Disk) (file : Path) : List String :=
  ((textAt d file).map BuildList.declaredSubdirectories).getD []

/-- The build list of a test directory, as a disk has what it is made of. -/
def planned (P : Project) (d : Disk) (leaf sourceDir : Path) : BuildList where
  testName := BuildList.testNameOf leaf
  unitTests := compiledAt P d leaf
  sources := ((compiledAt P d sourceDir).filter fun s => some s != P.config.entryPoint).map
    sourceDir.child
  includeDirs := includeDirsAt P d
  subdirectories := subdirectoriesAt d (P.absolute (leaf.child BuildList.fileName))

theorem mem_insertInOrder {name n : String} {ns : List String} :
    n ∈ insertInOrder name ns ↔ n = name ∨ n ∈ ns := by
  induction ns with
  | nil => simp [insertInOrder]
  | cons m ns ih =>
    unfold insertInOrder
    split
    · rw [List.mem_cons, ih, List.mem_cons, or_left_comm]
    · rw [List.mem_cons]

theorem mem_inOrder {n : String} {ns : List String} : n ∈ inOrder ns ↔ n ∈ ns := by
  induction ns with
  | nil => rfl
  | cons m ns ih =>
    change n ∈ insertInOrder m (inOrder ns) ↔ _
    rw [mem_insertInOrder, ih, List.mem_cons]

variable {d : Disk}

/-- The directory of what there is at a path lists it. -/
theorem listed_of_kindAt {r : Bool} {S : List String} {n : String} {k : EntryKind}
    (hn : Path.IsName n) (hS : (⟨r, S⟩ : Path).text ≠ "")
    (h : d.kindAt true ⟨r, S ++ [n]⟩ = some k) :
    ∃ es, d.listAt ⟨r, S⟩ = .ok es ∧ n ∈ es.map Prod.fst := by
  obtain ⟨l, e, hl, he, _⟩ := Disk.kindAt_eq_some_iff.mp h
  rw [Disk.locate_eq_ok_iff, Disk.resolve_eq_ok_iff] at hl
  obtain ⟨k, hk⟩ := hl.2.concat_inv (by simp) (.inl ⟨n, List.mem_singleton_self n, hn.not_idle⟩)
  -- the last step starts at the location of the directory
  obtain ⟨m, _, happend⟩ := hk.append
  have hstep := Disk.resolveFrom_eq_ok_iff.mpr hl.2
  rw [happend true [n] (by simp), Disk.resolveFrom_eq_ok_iff] at hstep
  obtain ⟨hdir, hlast⟩ := hstep.name_inv hn
  refine ⟨d.children k, Disk.listAt_eq_ok_iff.mpr ⟨k, ?_, hdir, rfl⟩, ?_⟩
  · rw [Disk.locate_eq_ok_iff, Disk.resolve_eq_ok_iff]
    exact ⟨hS, hk⟩
  · rcases hlast with ⟨_, hmissing⟩ | ⟨e', he', _⟩
    · cases hmissing
    · exact List.mem_map.mpr ⟨_, Disk.mem_children he', rfl⟩

theorem filesAt_isName (P : Project) (hd : d.Named) {directory : Path} {wanted : String → Bool}
    {n : String} (h : n ∈ filesAt P d directory wanted) : Path.IsName n := by
  unfold filesAt at h
  split at h
  · rename_i entries hl
    obtain ⟨l, _, _, rfl⟩ := Disk.listAt_eq_ok_iff.mp hl
    rw [mem_inOrder, List.mem_filter, List.mem_filter] at h
    obtain ⟨⟨s, k⟩, hmem, rfl⟩ := List.mem_map.mp h.1.1
    obtain ⟨e, he⟩ := Disk.find?_of_mem_children hmem
    exact hd l s e he
  · cases h

theorem wanted_of_mem_filesAt {P : Project} {directory : Path} {n : String}
    {wanted : String → Bool} (h : n ∈ filesAt P d directory wanted) : wanted n = true := by
  unfold filesAt at h
  split at h
  · rw [mem_inOrder, List.mem_filter, List.mem_filter] at h
    exact h.1.2
  · cases h

/-- **The files of a directory are those of wanted names that are there.** -/
theorem mem_filesAt (P : Project) {directory : Path} (h : directory.Neat)
    (hne : directory.segments ≠ []) {wanted : String → Bool} {n : String} (hn : Path.IsName n) :
    n ∈ filesAt P d directory wanted ↔
      wanted n = true ∧ d.kindAt true (P.absolute (directory.child n)) = some .file := by
  constructor
  · intro hmem
    unfold filesAt at hmem
    split at hmem
    · rw [mem_inOrder, List.mem_filter, List.mem_filter, Path.absolute_child P h hne] at hmem
      exact ⟨hmem.1.2, by simpa using hmem.2⟩
    · cases hmem
  · rintro ⟨hw, hk⟩
    have hlist := hk
    rw [Path.absolute_concat P h] at hlist
    obtain ⟨es, hes, hmem⟩ := listed_of_kindAt hn (Path.absolute_text P h hne) hlist
    have hes : d.listAt (P.absolute directory) = .ok es := hes
    unfold filesAt
    rw [hes]
    dsimp only
    rw [mem_inOrder, List.mem_filter, List.mem_filter, Path.absolute_child P h hne]
    exact ⟨⟨hmem, hw⟩, by simp [hk]⟩

theorem filesAmong_ends (directory : Path) {bad : Failure → Disk → Prop} : ∀ names : List String,
    (filesAmong directory names).Ends
      (fun fs d' => d' = d ∧
        fs = names.filter fun n => d.kindAt true (directory.child n) == some .file) bad d
  | [] => ⟨rfl, rfl⟩
  | name :: names => by
      unfold filesAmong
      rw [Job.ends_seq, Job.ends_isFile, Job.ends_seq]
      refine (filesAmong_ends directory names).mono (fun fs d' h => ?_) fun _ _ h => h
      obtain ⟨rfl, rfl⟩ := h
      rw [Job.ends_pure]
      refine ⟨rfl, ?_⟩
      split
      · rename_i hfile
        rw [List.filter_cons, if_pos hfile]
      · rename_i hfile
        rw [List.filter_cons, if_neg hfile]

theorem filesIn_ends (directory : Path) (wanted : String → Bool)
    (entries : List (String × EntryKind)) {bad : Failure → Disk → Prop} :
    (filesIn directory wanted entries).Ends
      (fun fs d' => d' = d ∧ fs = inOrder (((entries.map Prod.fst).filter wanted).filter
        fun n => d.kindAt true (directory.child n) == some .file)) bad d := by
  unfold filesIn
  rw [Job.ends_seq]
  refine (filesAmong_ends directory _).mono (fun fs d' h => ?_) fun _ _ h => h
  obtain ⟨rfl, rfl⟩ := h
  exact ⟨rfl, rfl⟩

theorem compiledFiles_ends (P : Project) (directory : Path) :
    (compiledFiles P directory).Ends (fun fs d' => d' = d ∧ fs = compiledAt P d directory)
      (fun e d' => e.isUserError = false ∧ d' = d) d := by
  unfold compiledFiles
  rw [Job.ends_ask]
  split
  · rename_i entries hl
    have hl : d.listAt (P.absolute directory) = .ok entries := hl
    unfold compiledAt filesAt
    rw [hl]
    exact filesIn_ends (P.absolute directory) _ entries
  · rename_i hl
    have hl : d.listAt (P.absolute directory) = .error .notFound := hl
    unfold compiledAt filesAt
    rw [hl]
    exact ⟨rfl, rfl⟩
  · exact ⟨rfl, rfl⟩

theorem includeDirs_ends (P : Project) {bad : Failure → Disk → Prop} :
    (includeDirs P).Ends (fun dirs d' => d' = d ∧ dirs = includeDirsAt P d) bad d := by
  unfold includeDirs includeDirsAt
  simp only
  rw [Job.ends_seq, Job.ends_isDirectory]
  split
  · rename_i h
    exact ⟨rfl, rfl⟩
  · rename_i h
    exact ⟨rfl, rfl⟩

theorem declaredAt_ends (file : Path) :
    (declaredAt file).Ends
      (fun subs d' => d' = d ∧ subs = subdirectoriesAt d file ∧
        ((∃ t, d.readAt file = .ok (.text t)) ∨ d.readAt file = .error .notFound))
      (fun e d' => e.isUserError = false ∧ d' = d) d := by
  unfold declaredAt
  rw [Job.ends_seq, Job.ends_tryText]
  split
  · rename_i t ht
    unfold subdirectoriesAt textAt
    rw [asText_eq_ok ht]
    exact ⟨rfl, rfl, .inl ⟨t, rfl⟩⟩
  · rename_i ht
    unfold subdirectoriesAt textAt
    rw [asText_eq_notFound ht]
    exact ⟨rfl, rfl, .inr rfl⟩
  · exact ⟨rfl, rfl⟩

/-- **The list that is written is the planned one**, unless it is excluded. It is
written over a text or where nothing is. -/
theorem writeLeaf_ends (P : Project) (leaf sourceDir : Path) :
    (writeLeaf P leaf sourceDir).Ends
      (fun _ d' => (P.excludes (leaf.child BuildList.fileName) = true ∧ d' = d) ∨
        (((∃ t, d.readAt (P.absolute (leaf.child BuildList.fileName)) = .ok (.text t)) ∨
            d.readAt (P.absolute (leaf.child BuildList.fileName)) = .error .notFound) ∧
          ∃ d₁, d.Prepared (P.absolute (leaf.child BuildList.fileName)) d₁ ∧
            d₁.changeAt (P.absolute (leaf.child BuildList.fileName))
              (fun _ => .text (planned P d leaf sourceDir).text) = .ok d'))
      (fun e d' => e.isUserError = false ∧ d.Extends d') d := by
  unfold writeLeaf
  simp only
  split
  · rename_i hex
    exact .inl ⟨hex, rfl⟩
  rw [Job.ends_seq]
  refine (compiledFiles_ends P sourceDir).mono (fun _ _ h => ?_) fun _ _ h => ⟨h.1, h.2 ▸ .refl d⟩
  obtain ⟨rfl, rfl⟩ := h
  rw [Job.ends_seq]
  refine (compiledFiles_ends P leaf).mono (fun _ _ h => ?_) fun _ _ h => ⟨h.1, h.2 ▸ .refl _⟩
  obtain ⟨rfl, rfl⟩ := h
  rw [Job.ends_seq]
  refine (includeDirs_ends P).mono (fun _ _ h => ?_) fun _ _ h => h
  obtain ⟨rfl, rfl⟩ := h
  rw [Job.ends_seq]
  refine (declaredAt_ends _).mono (fun _ d' h => ?_) fun _ _ h => ⟨h.1, h.2 ▸ .refl _⟩
  obtain ⟨rfl, rfl, hread⟩ := h
  rw [Job.ends_seq]
  refine (writeArtifact_ends .buildList _ _ d').mono (fun _ d'' h => ?_) fun _ _ h => h
  obtain ⟨t, d₁, ht, hd₁, hd''⟩ := h
  cases ht
  exact .inr ⟨hread, d₁, hd₁, hd''⟩

end BuildTree

end Scaffold
