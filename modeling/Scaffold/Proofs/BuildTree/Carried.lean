import Scaffold.Proofs.BuildList.Reading
import Scaffold.Proofs.BuildTree.Requests
import Scaffold.Proofs.BuildTree.Sites
import Scaffold.Proofs.Disk.Shape
import Scaffold.Proofs.Path.Pieces

/-!
# What a build list that is written anew takes along

A test directory has a list, and it is written again.

* `declared?_source` -- a source file whose extension has no closing parenthesis is not
  read as a declaration;
* `planned_quiet` -- no line of the new list but its declarations declares anything;
* `writeLeaf_over` -- all that writing it does, as an equation for the disk;
* `writeLeaf_carries`: **the new list declares what the old one declared, in its order,
  and writing it once more changes nothing**.
-/
namespace Scaffold

open Artifact (BuildList)
open Artifact.BuildList (declared? declaredSubdirectories Trimmed Quiet opening)

/-! ## 1. Names of sources -/

/-- The end of a trimmed text is not cut off behind a character that is no blank. -/
theorem Text.getLast?_trim {b e : List Char} {c z : Char} (hc : isBlank c = false)
    (h : (trim (b ++ c :: e)).getLast? = some z) : z ∈ c :: e := by
  have hfront : (b ++ c :: e).dropWhile isBlank = b.dropWhile isBlank ++ c :: e := by
    rw [List.dropWhile_append]
    split
    · rename_i hb
      rw [List.isEmpty_iff.mp hb, List.nil_append, List.dropWhile_cons_of_neg (by simp [hc])]
    · rfl
  have hback : ∀ B E : List Char, ((E ++ c :: B).dropWhile isBlank).head? = some z →
      z ∈ c :: E := by
    intro B E hz
    induction E with
    | nil =>
      rw [List.nil_append, List.dropWhile_cons_of_neg (by simp [hc]), List.head?_cons] at hz
      simp [Option.some.inj hz]
    | cons a E ih =>
      rw [List.cons_append, List.dropWhile_cons] at hz
      split at hz
      · rcases List.mem_cons.mp (ih hz) with rfl | hmem
        · exact List.mem_cons_self
        · simp [hmem]
      · rw [List.head?_cons] at hz
        simp [Option.some.inj hz]
  rw [trim, dropEndWhile, List.getLast?_reverse, hfront, List.reverse_append, List.reverse_cons,
    List.append_assoc, List.singleton_append] at h
  simpa using hback _ _ h

namespace BuildTree

/-- Behind an extension without a closing parenthesis no declaration ends. -/
theorem declared?_of_extension {n e : String} (h : (Path.cutName n).2 = some e)
    (he : ')' ∉ e.toList) : declared? n.toList = none := by
  obtain ⟨hn, -⟩ := Path.cutName_extension h
  rw [Option.eq_none_iff_forall_ne_some]
  intro c hc
  unfold declared? at hc
  change ((Artifact.BuildList.after? opening (Text.trim n.toList)).bind fun rest => _) = _ at hc
  obtain ⟨rest, hrest, hc⟩ := Option.bind_eq_some_iff.mp hc
  split at hc
  · rename_i hlast
    have htrim : (Text.trim n.toList).getLast? = some ')' := by
      rw [Artifact.BuildList.after?_eq_some hrest, List.getLast?_append, hlast]
      rfl
    rw [hn] at htrim
    rcases List.mem_cons.mp (Text.getLast?_trim (by decide) htrim) with hdot | hmem
    · cases hdot
    · exact he hmem
  · cases hc

variable {P : Project} {d d' : Disk} {leaf sourceDir directory : Path} {n : String}

/-- **A source file whose extension has no closing parenthesis is not read as a
declaration.** -/
theorem declared?_source (hext : ∀ e ∈ P.config.sourceExtensions, ')' ∉ e.toList)
    (h : P.isSource (directory.child n) = true) : declared? n.toList = none := by
  by_cases hn : Path.IsName n
  · obtain ⟨e, he, hcut⟩ := (Path.hasExtension_child hn).mp h
    exact declared?_of_extension hcut (hext e he)
  · -- the names of no file are not declarations either
    have hodd : n = "" ∨ n = "." ∨ n = ".." := by
      by_contra hnone
      simp only [not_or] at hnone
      exact hn ⟨hnone.1, hnone.2.1, hnone.2.2⟩
    rcases hodd with rfl | rfl | rfl <;> decide

/-! ## 2. The same list from disks of one shape -/

theorem listAt_sameShape (h : Disk.SameShape d d') (hd : d.Distinct) (hd' : d'.Distinct)
    {p : Path} :
    (∃ es es', d.listAt p = .ok es ∧ d'.listAt p = .ok es' ∧ ∀ e, e ∈ es' ↔ e ∈ es) ∨
      ∃ f, d.listAt p = .error f ∧ d'.listAt p = .error f := by
  unfold Disk.listAt
  rw [h.locate]
  cases hl : d.locate true p with
  | error f => exact .inr ⟨f, rfl, rfl⟩
  | ok l =>
    dsimp only
    by_cases hdir : d.find? l = some .directory
    · rw [hdir, h.directory_iff.mpr hdir]
      exact .inl ⟨_, _, rfl, rfl, fun ⟨s, k⟩ => h.mem_children hd hd'⟩
    · have hdir' : d'.find? l ≠ some .directory := fun hdir' => hdir (h.directory_iff.mp hdir')
      exact .inr ⟨.notDirectory, by split <;> simp_all, by split <;> simp_all⟩

/-- The files of a directory are the same. -/
theorem filesAt_sameShape (h : Disk.SameShape d d') (hd : d.Distinct) (hd' : d'.Distinct)
    (directory : Path) (wanted : String → Bool) :
    filesAt P d' directory wanted = filesAt P d directory wanted := by
  refine eq_of_sorted (nodup_filesAt P hd' directory wanted) (nodup_filesAt P hd directory wanted)
    (sorted_filesAt P d' directory wanted) (sorted_filesAt P d directory wanted) fun n => ?_
  unfold filesAt
  rcases listAt_sameShape h hd hd' (p := P.absolute directory) with
    ⟨es, es', hes, hes', hsame⟩ | ⟨f, hf, hf'⟩
  · have hnames : n ∈ es'.map Prod.fst ↔ n ∈ es.map Prod.fst := by
      simp only [List.mem_map, hsame]
    rw [hes, hes']
    simp only [mem_inOrder, List.mem_filter, h.kindAt, hnames]
  · rw [hf, hf']

/-- Tests see the source directory, and the include directory inside it if at all. -/
theorem mem_includeDirsAt {p : Path} (h : p ∈ includeDirsAt P d) :
    p = Path.ofText P.config.sourceDir ∨
      p = (Path.ofText P.config.sourceDir).join (Path.ofText P.config.includeDir) := by
  unfold includeDirsAt at h
  dsimp only at h
  split at h
  · simpa using h
  · exact .inl (by simpa using h)

/-- The texts that the list of a directory is made of, but for its declarations: names of
files, and the steps of the paths to them. -/
def namesFor (P : Project) (d : Disk) (leaf sourceDir : Path) : List String :=
  leaf.segments ++ sourceDir.segments ++ [P.config.sourceDir, P.config.includeDir] ++
    compiledAt P d leaf ++ compiledAt P d sourceDir

/-- What a list declares that is there is trimmed and stays in its line. -/
theorem trimmed_of_mem_subdirectoriesAt {file : Path} {c : String}
    (hc : c ∈ subdirectoriesAt d file) : Trimmed c ∧ '\n' ∉ c.toList := by
  unfold subdirectoriesAt at hc
  cases ht : textAt d file with
  | none =>
    rw [ht] at hc
    cases hc
  | some t =>
    rw [ht] at hc
    exact Artifact.BuildList.trimmed_of_mem_declarations
      (Artifact.BuildList.mem_declaredSubdirectories.mp hc)

/-- **No line of the new list but its declarations declares anything.** -/
theorem planned_quiet (hext : ∀ e ∈ P.config.sourceExtensions, ')' ∉ e.toList)
    (hnames : ∀ s ∈ namesFor P d leaf sourceDir, '\n' ∉ s.toList) :
    (planned P d leaf sourceDir).Quiet where
  printed := by
    have hsegments : ∀ p ∈ (planned P d leaf sourceDir).sources ++ includeDirsAt P d,
        ∀ s ∈ p.segments, '\n' ∉ s.toList := by
      intro p hp
      rcases List.mem_append.mp hp with hp | hp
      · obtain ⟨n, hn, rfl⟩ := List.mem_map.mp hp
        refine Path.notMem_join (fun s hs => hnames s (by simp [namesFor, hs])) fun s hs => ?_
        rw [List.mem_singleton.mp hs]
        exact hnames n (by simp [namesFor, (List.mem_filter.mp hn).1])
      · have hsource := Path.notMem_ofText (hnames P.config.sourceDir (by simp [namesFor]))
        have hinner := Path.notMem_ofText (hnames P.config.includeDir (by simp [namesFor]))
        rcases mem_includeDirsAt hp with rfl | rfl
        · exact hsource
        · exact Path.notMem_join hsource hinner
    intro s hs
    rcases List.mem_cons.mp hs with rfl | hs
    · exact Path.notMem_spelled (by decide) (by decide) fun s hs =>
        hnames s (by simp [namesFor, hs])
    rcases List.mem_append.mp hs with hs | hs
    · have hs : s ∈ compiledAt P d leaf := hs
      exact hnames s (by simp [namesFor, hs])
    · obtain ⟨p, hp, rfl⟩ := List.mem_map.mp hs
      exact Path.notMem_spelled (by decide) (by decide) (hsegments p hp)
  unitTests n hn := declared?_source hext (wanted_of_mem_filesAt (P := P) (d := d) hn)
  subdirectories _ hc := trimmed_of_mem_subdirectoriesAt hc

theorem subdirectoriesAt_of_readAt {file : Path} {t : String} (h : d.readAt file = .ok (.text t)) :
    subdirectoriesAt d file = declaredSubdirectories t := by
  unfold subdirectoriesAt textAt
  rw [h]
  rfl

/-- **The new list declares what the old one declared, in its order.** -/
theorem declaredSubdirectories_planned {t : String} (h : (planned P d leaf sourceDir).Quiet)
    (ht : d.readAt (P.absolute (leaf.child BuildList.fileName)) = .ok (.text t)) :
    declaredSubdirectories (planned P d leaf sourceDir).text = declaredSubdirectories t := by
  have hsub : (planned P d leaf sourceDir).subdirectories = declaredSubdirectories t :=
    subdirectoriesAt_of_readAt ht
  rw [Artifact.BuildList.declaredSubdirectories_eq, Artifact.BuildList.declarations_text h, hsub,
    Artifact.BuildList.eraseDups_of_nodup
      (Artifact.BuildList.nodup_declaredSubdirectories t)]

/-- A list that declares the same is planned the same on a disk of the same shape. -/
theorem planned_sameShape (h : Disk.SameShape d d') (hd : d.Distinct) (hd' : d'.Distinct)
    {t t' : String} (ht : d.readAt (P.absolute (leaf.child BuildList.fileName)) = .ok (.text t))
    (ht' : d'.readAt (P.absolute (leaf.child BuildList.fileName)) = .ok (.text t'))
    (hdeclared : declaredSubdirectories t' = declaredSubdirectories t) :
    planned P d' leaf sourceDir = planned P d leaf sourceDir := by
  have hdirs : includeDirsAt P d' = includeDirsAt P d := by
    unfold includeDirsAt
    simp only [h.kindAt]
  unfold planned compiledAt
  rw [filesAt_sameShape h hd hd', filesAt_sameShape h hd hd', hdirs,
    subdirectoriesAt_of_readAt ht, subdirectoriesAt_of_readAt ht', hdeclared]

/-! ## 3. Writing over a list -/

/-- An artifact that is written over a file takes its place, and no directory is made. -/
theorem writeArtifact_over (artifact : Artifact) (parameters : Artifact.Parameters) {target : Path}
    {A : List String} {c : Content} (htarget : target.segments = A ++ [n]) (hn : Path.IsName n)
    (hread : d.readAt target = .ok c) :
    (writeArtifact artifact target parameters).Ends
      (fun _ d' => ∃ t F, artifact.render parameters = .ok t ∧ d.locate true target = .ok F ∧
        d.find? F = some (.file c) ∧ d' = d.put F (.file (.text t)))
      (fun e _ => artifact.render parameters = .error e) d := by
  obtain ⟨F, hF, hfile⟩ := Disk.readAt_eq_ok_iff.mp hread
  have hwrite : ∀ t, artifact.render parameters = .ok t → (Job.write target t).Ends
      (fun _ d' => ∃ t F, artifact.render parameters = .ok t ∧ d.locate true target = .ok F ∧
        d.find? F = some (.file c) ∧ d' = d.put F (.file (.text t)))
      (fun e _ => artifact.render parameters = .error e) d := by
    intro t ht
    rw [Job.ends_write, Disk.changeAt_of_locate hF hfile]
    exact ⟨t, F, ht, hF, hfile, rfl⟩
  unfold writeArtifact
  rw [Job.ends_seq, Job.ends_ofExcept]
  split
  · rename_i t ht
    dsimp only
    split
    · rename_i parent hparent
      split
      · exact hwrite t ht
      · rename_i htext
        rw [Job.ends_seq, Job.ends_makeDirs,
          Disk.makeDirs_parent htarget hread hn hparent (by simpa using htext)]
        exact hwrite t ht
    · exact hwrite t ht
  · rename_i e he
    exact he

/-- The directory can be listed, or there is none. -/
def Listed (P : Project) (d : Disk) (directory : Path) : Prop :=
  ∀ f, d.listAt (P.absolute directory) = .error f → f = .notFound

theorem Listed.sameShape (hl : Listed P d directory) (h : Disk.SameShape d d') (hd : d.Distinct)
    (hd' : d'.Distinct) : Listed P d' directory := by
  intro f hf
  rcases listAt_sameShape h hd hd' (p := P.absolute directory) with
    ⟨es, es', -, hes', -⟩ | ⟨f', hf', hf''⟩
  · cases hes'.symm.trans hf
  · cases hf''.symm.trans hf
    exact hl f hf'

theorem compiledFiles_listed (P : Project) (directory : Path) (d : Disk) :
    (compiledFiles P directory).Ends
      (fun fs d' => d' = d ∧ fs = compiledAt P d directory ∧ Listed P d directory)
      (fun _ _ => ¬Listed P d directory) d := by
  have hlisted : (compiledFiles P directory).Ends (fun _ _ => Listed P d directory)
      (fun _ _ => ¬Listed P d directory) d := by
    unfold compiledFiles
    rw [Job.ends_ask]
    split
    · rename_i entries hl
      have hl : d.listAt (P.absolute directory) = .ok entries := hl
      have hok : Listed P d directory := fun f hf => by cases hl.symm.trans hf
      exact (filesIn_ends _ _ entries).mono (fun _ _ _ => hok) fun _ _ h => h
    · rename_i hl
      have hl : d.listAt (P.absolute directory) = .error .notFound := hl
      exact fun f hf => by
        cases hl.symm.trans hf
        rfl
    · rename_i fault hfault hl
      have hl : d.listAt (P.absolute directory) = .error fault := hl
      exact fun h => hfault (by rw [h fault hl]) 
  exact ((compiledFiles_ends P directory).and hlisted).mono
    (fun _ _ h => ⟨h.1.1, h.1.2, h.2⟩) fun _ _ h => h.2

/-- **All that writing a list over a text does**: it goes well where the directories can be
listed, and then the planned list takes the place of the text. -/
theorem writeLeaf_over {t : String} (hex : P.excludes (leaf.child BuildList.fileName) = false)
    (ht : d.readAt (P.absolute (leaf.child BuildList.fileName)) = .ok (.text t)) :
    (writeLeaf P leaf sourceDir).Ends
      (fun _ d' => Listed P d sourceDir ∧ Listed P d leaf ∧ ∃ F,
        d.locate true (P.absolute (leaf.child BuildList.fileName)) = .ok F ∧
        d.find? F = some (.file (.text t)) ∧
        d' = d.put F (.file (.text (planned P d leaf sourceDir).text)))
      (fun _ _ => ¬(Listed P d sourceDir ∧ Listed P d leaf)) d := by
  unfold writeLeaf
  simp only [hex, Bool.false_eq_true, if_false]
  rw [Job.ends_seq]
  refine (compiledFiles_listed P sourceDir d).mono (fun _ _ h => ?_) fun _ _ h hboth => h hboth.1
  obtain ⟨rfl, rfl, hsource⟩ := h
  rw [Job.ends_seq]
  refine (compiledFiles_listed P leaf _).mono (fun _ _ h => ?_) fun _ _ h hboth => h hboth.2
  obtain ⟨rfl, rfl, hleaf⟩ := h
  rw [Job.ends_seq]
  refine (includeDirs_ends P).mono (fun _ d h => ?_) fun _ _ h => h
  obtain ⟨rfl, rfl⟩ := h
  rw [Job.ends_seq]
  unfold declaredAt
  rw [Job.ends_seq, Job.ends_tryText, ht]
  dsimp only [Job.asText]
  rw [Job.ends_pure, Job.ends_seq, ← subdirectoriesAt_of_readAt ht]
  obtain ⟨A, hfile⟩ := Path.absolute_child_segments P leaf BuildList.fileName
  refine (writeArtifact_over .buildList _ hfile (by decide) ht).mono (fun _ _ h => ?_)
    fun e _ he => ?_
  · obtain ⟨text, F, htext, hF, hold, rfl⟩ := h
    cases htext
    exact ⟨hsource, hleaf, F, hF, hold, rfl⟩
  · cases he

/-! ## 4. Carried declarations -/

/-- **A list that is written anew declares what it declared before**, whatever its text was,
and in the same order. It goes well once more, and then nothing changes. -/
theorem writeLeaf_carries (P : Project) (leaf sourceDir : Path) {d : Disk} {t : String}
    (hext : ∀ e ∈ P.config.sourceExtensions, ')' ∉ e.toList) (hd : d.Distinct)
    (hnames : ∀ s ∈ namesFor P d leaf sourceDir, '\n' ∉ s.toList)
    (hex : P.excludes (leaf.child BuildList.fileName) = false)
    (ht : d.readAt (P.absolute (leaf.child BuildList.fileName)) = .ok (.text t))
    (hok : ((writeLeaf P leaf sourceDir).run d).value = .ok ()) :
    ∃ t', ((writeLeaf P leaf sourceDir).run d).disk.readAt
        (P.absolute (leaf.child BuildList.fileName)) = .ok (.text t') ∧
      declaredSubdirectories t' = declaredSubdirectories t ∧
      ((writeLeaf P leaf sourceDir).run ((writeLeaf P leaf sourceDir).run d).disk).value = .ok () ∧
      ∀ l, ((writeLeaf P leaf sourceDir).run
          ((writeLeaf P leaf sourceDir).run d).disk).disk.find? l =
        ((writeLeaf P leaf sourceDir).run d).disk.find? l := by
  obtain ⟨hsource, hleaf, F, hF, hold, hd'⟩ := (writeLeaf_over hex ht).of_run_ok hok
  generalize ((writeLeaf P leaf sourceDir).run d).disk = d' at hd' ⊢
  have hquiet : (planned P d leaf sourceDir).Quiet := planned_quiet hext hnames
  have hshape : Disk.SameShape d d' := hd' ▸ Disk.sameShape_put hold _
  have hdistinct : d'.Distinct := hd' ▸ hd.put F _
  have hne : F ≠ [] := Disk.ne_nil_of_file hold
  have hnew : d'.find? F = some (.file (.text (planned P d leaf sourceDir).text)) := by
    rw [hd', Disk.find?_put d hne, if_pos rfl]
  have ht' : d'.readAt (P.absolute (leaf.child BuildList.fileName)) =
      .ok (.text (planned P d leaf sourceDir).text) :=
    Disk.readAt_eq_ok_iff.mpr ⟨F, by rw [hshape.locate, hF], hnew⟩
  have hcarried := declaredSubdirectories_planned hquiet ht
  have hagain : planned P d' leaf sourceDir = planned P d leaf sourceDir :=
    planned_sameShape hshape hd hdistinct ht ht' hcarried
  -- the second run finds the same directories and plans the same text
  have hlisted : Listed P d' sourceDir ∧ Listed P d' leaf :=
    ⟨hsource.sameShape hshape hd hdistinct, hleaf.sameShape hshape hd hdistinct⟩
  have hsecond : (writeLeaf P leaf sourceDir).Ends (fun _ d'' => ∀ l, d''.find? l = d'.find? l)
      (fun _ _ => False) d' := by
    refine (writeLeaf_over hex ht').mono (fun _ d'' h l => ?_) fun _ _ h => h hlisted
    obtain ⟨-, -, G, hG, -, rfl⟩ := h
    rw [hshape.locate, hF] at hG
    cases hG
    rw [Disk.find?_put d' hne, hagain]
    split
    · rename_i hl
      rw [hl, hnew]
    · rfl
  cases hv : ((writeLeaf P leaf sourceDir).run d').value with
  | ok u => exact ⟨_, ht', hcarried, rfl, hsecond.of_run_ok hv⟩
  | error e => exact (hsecond.of_run_error hv).elim

/-- A list that was edited by hand: lines that end in a carriage return, blanks inside, a
declaration that comes twice, and no line feed at the end. -/
def editedList : String :=
  "# by hand\r\nadd_subdirectory(b)\r\n  add_subdirectory( a )\nadd_subdirectory(b)"

/-- A project with that list, a test and a source. -/
def editedDisk : Disk :=
  ⟨[(["w"], .directory), (["w", "src"], .directory),
    (["w", "src", "foo.cpp"], .file (.text "int f();\n")), (["w", "tests"], .directory),
    (["w", "tests", "ut"], .directory),
    (["w", "tests", "ut", "ut_foo.cpp"], .file (.text "int g();\n")),
    (["w", "tests", "ut", "CMakeLists.txt"], .file (.text editedList))]⟩

/-- Writing the list of the tests there. -/
abbrev editedRun : Job Unit := writeLeaf Project.usual ⟨false, ["tests", "ut"]⟩ ⟨false, ["src"]⟩

theorem edited_list_carried :
    ∃ t', (editedRun.run editedDisk).disk.readAt ⟨true, ["w", "tests", "ut", "CMakeLists.txt"]⟩ =
        .ok (.text t') ∧ declaredSubdirectories t' = ["b", "a"] ∧
      (editedRun.run (editedRun.run editedDisk).disk).value = .ok () ∧
      ∀ l, (editedRun.run (editedRun.run editedDisk).disk).disk.find? l =
        (editedRun.run editedDisk).disk.find? l := by
  have h := writeLeaf_carries Project.usual ⟨false, ["tests", "ut"]⟩ ⟨false, ["src"]⟩
    (d := editedDisk) (t := editedList) (by decide) (by decide) (by decide +kernel) rfl
    (by decide +kernel) (Job.ok_of_isOk (by decide +kernel))
  have hdeclared : declaredSubdirectories editedList = ["b", "a"] := by decide +kernel
  rwa [hdeclared] at h

end BuildTree

end Scaffold
