import Scaffold.Proofs.Outputs.Truth
import Scaffold.Proofs.Project.Lasting

/-!
# Generating a mock again

The marker of a mock is written last and stops a second run. Where it is excluded,
the mock files stop it one by one.

* `Covered` -- a file need not be written: it is excluded, or it is there;
  `writeAll_covers`: **after the files of a mock were written each of them is covered**,
  and `writeAll_covered`: then nothing is written any more;
* `Finished` -- nothing of the mock of a header is left to write; `generate_finishes`
  and `generate_finished`;
* `generate_again` -- **a second run writes nothing and changes nothing**, whatever is
  excluded and whatever was there before the first.
-/
namespace Scaffold.Mocks

variable {P : Project} {d d' : Disk} {header rel file : Path} {parameters : Artifact.Parameters}

/-! ## 1. The files of a mock -/

/-- The file need not be written: it is excluded, or there is something already. -/
def Covered (P : Project) (d : Disk) (file : Path) : Prop :=
  P.excludes file = true ∨ (d.kindAt true (P.absolute file)).isSome = true

theorem kindAt_isSome_grows {p : Path} (hg : d.Grows d') (h : (d.kindAt true p).isSome = true) :
    (d'.kindAt true p).isSome = true := by
  obtain ⟨k, hk⟩ := Option.isSome_iff_exists.mp h
  rw [Disk.kindAt_grows hg hk]
  rfl

theorem Covered.grows (h : Covered P d file) (hg : d.Grows d') : Covered P d' file :=
  h.imp_right (kindAt_isSome_grows hg)

/-- A file of a mock is covered when it was written, or was not to be. -/
theorem writeOne_covers (keeps : Bool) (artifact : Artifact) :
    (writeOne P keeps parameters artifact file).Ends (fun _ d' => Covered P d' file)
      (fun _ _ => True) d := by
  unfold writeOne
  split
  · rename_i hex
    exact .inl hex
  · rw [Job.ends_seq]
    have hwrite : (do
        writeArtifact artifact (P.absolute file) parameters
        Job.report file .written none
        pure true : Job Bool).Ends (fun _ d' => Covered P d' file) (fun _ _ => True) d := by
      rw [Job.ends_seq]
      refine (writeArtifact_ends artifact _ parameters d).mono (fun _ d' h => ?_) fun _ _ _ => trivial
      obtain ⟨t, d₁, _, _, hd'⟩ := h
      exact .inr (kindAt_isSome_of_readAt (Disk.readAt_changeAt hd'))
    split
    · rw [Job.ends_exists]
      split
      · rename_i hthere
        exact .inr hthere
      · exact hwrite
    · exact hwrite

/-- **After the files of a mock were written each of them is covered.** -/
theorem writeAll_covers (keeps : Bool) : ∀ (files : List (Artifact × Path)) (d : Disk),
    (writeAll P keeps parameters files).Ends (fun _ d' => ∀ x ∈ files, Covered P d' x.2)
      (fun _ _ => True) d
  | [], _ => fun _ hx => absurd hx List.not_mem_nil
  | (artifact, file) :: rest, d => by
      unfold writeAll
      rw [Job.ends_seq]
      refine (writeOne_covers keeps artifact).mono (fun wrote d₁ h₁ => ?_) fun _ _ h => h
      rw [Job.ends_seq]
      refine (writeAll_covers keeps rest d₁).grown.mono (fun more d₂ h₂ => ?_) fun _ _ h => h.1
      rw [Job.ends_pure]
      intro x hx
      rcases List.mem_cons.mp hx with rfl | hx
      · exact h₁.grows h₂.2
      · exact h₂.1 x hx

/-- A file that is covered is not written, where existing ones are kept. -/
theorem writeOne_covered (artifact : Artifact) (h : Covered P d file) :
    (writeOne P true parameters artifact file).Ends (fun wrote d' => wrote = false ∧ d' = d)
      (fun _ _ => False) d := by
  unfold writeOne
  split
  · exact ⟨rfl, rfl⟩
  · rename_i hex
    rw [if_pos rfl, Job.ends_seq, Job.ends_exists, if_pos (h.resolve_left hex)]
    exact ⟨rfl, rfl⟩

/-- **Where all files are covered nothing is written.** -/
theorem writeAll_covered : ∀ (files : List (Artifact × Path)), (∀ x ∈ files, Covered P d x.2) →
    (writeAll P true parameters files).Ends (fun wrote d' => wrote = false ∧ d' = d)
      (fun _ _ => False) d
  | [], _ => ⟨rfl, rfl⟩
  | (artifact, file) :: rest, h => by
      unfold writeAll
      rw [Job.ends_seq]
      refine (writeOne_covered artifact (h _ List.mem_cons_self)).mono (fun wrote d₁ h₁ => ?_)
        fun _ _ h => h
      obtain ⟨rfl, hd₁⟩ := h₁
      rw [hd₁, Job.ends_seq]
      refine (writeAll_covered rest fun x hx => h x (List.mem_cons_of_mem _ hx)).mono
        (fun more d₂ h₂ => ?_) fun _ _ h => h
      obtain ⟨rfl, hd₂⟩ := h₂
      exact ⟨rfl, hd₂⟩

/-- A header that is there is described under its name. -/
theorem describeHeader_there (h : d.kindAt true file = some .file) :
    (describeHeader file).Ends (fun h d' => d' = d ∧ h.name = file.fileName?.getD "")
      (fun _ _ => False) d := by
  obtain ⟨l, e, hl, he, hkind⟩ := Disk.kindAt_eq_some_iff.mp h
  cases e with
  | file c =>
    unfold describeHeader
    rw [Job.ends_seq, Job.ends_read, Disk.readAt_eq_ok_iff.mpr ⟨l, hl, he⟩]
    exact ⟨rfl, rfl⟩
  | directory => cases hkind
  | link t => cases hkind

/-! ## 2. Mocks that are finished -/

/-- Where the files of a mock lie depends on nothing but the name of the header. -/
theorem files_congr {h h' : Header} (hname : h.name = h'.name) (marker : Path) :
    files h marker = files h' marker := by
  unfold files Header.stem
  rw [hname]

/-- Nothing of the mock of a header is left to write: its marker is there, or it is
excluded and the mock files are covered. -/
inductive Finished (P : Project) (rel : Path) (d : Disk) : Prop
  | marked {marker : Path} (hM : relocate rel P.config.sourceDir mocksDir = .ok marker)
      (h : (d.kindAt true (P.absolute marker)).isSome = true)
  | unmarked {marker : Path} (hM : relocate rel P.config.sourceDir mocksDir = .ok marker)
      (hex : P.excludes marker = true) (hfile : d.kindAt true (P.absolute rel) = some .file)
      (hfiles : ∀ h : Header, h.name = (P.absolute rel).fileName?.getD "" →
        ∀ x ∈ files h marker, Covered P d x.2)

/-- **When a mock was generated it is finished**, and then the marker was there before
or the header is a file. -/
theorem generate_finishes (P : Project) (header : Path) (d : Disk) :
    (generate P header).Ends (fun _ d' => ∃ rel, ((P.relative header).run d).value = .ok rel ∧
      P.isHeader rel = true ∧ Finished P rel d' ∧
        (d' = d ∨ d.kindAt true (P.absolute rel) = some .file)) (fun _ _ => True) d := by
  unfold generate
  rw [Job.ends_seq]
  refine ((Job.ends_value _ d).and (Path.relative_neat P header d)).mono (fun rel d₀ h => ?_)
    fun _ _ _ => trivial
  obtain ⟨hrel, _, rfl⟩ := h
  split
  · trivial
  rename_i hheader
  have hheader : P.isHeader rel = true := by simpa using hheader
  rw [Job.ends_seq, Job.ends_ofExcept]
  split
  · rename_i marker hM
    rw [Job.ends_seq, Job.ends_exists]
    split
    · rename_i hthere
      exact ⟨rel, hrel, hheader, .marked hM hthere, .inl rfl⟩
    rw [Job.ends_seq, Job.ends_isFile]
    split
    · trivial
    rename_i hfile
    have hfile : d₀.kindAt true (P.absolute rel) = some .file := by simpa using hfile
    rw [Job.ends_seq]
    refine (describeHeader_there hfile).mono (fun h d₁ hd₁ => ?_) fun _ _ _ => trivial
    obtain ⟨rfl, hname⟩ := hd₁
    refine (writeAll_covers _ _ _).grown.mono (fun _ d' hd' =>
      ⟨rel, hrel, hheader, ?_, .inr hfile⟩) fun _ _ _ => trivial
    -- if the marker is not excluded, it was written
    have hmarker := hd'.1 (.interfaceHeader, marker) (by simp [files])
    rcases hmarker with hex | hthere
    · refine .unmarked hM hex (Disk.kindAt_grows hd'.2 hfile) fun h' hname' x hx => hd'.1 x ?_
      rwa [files_congr (hname'.trans hname.symm)] at hx
    · exact .marked hM hthere
  · trivial

/-- **The mock of a finished header is not written again.** -/
theorem generate_finished (hrel : ((P.relative header).run d).value = .ok rel)
    (hheader : P.isHeader rel = true) (h : Finished P rel d) :
    (generate P header).Ends (fun wrote d' => wrote = false ∧ d' = d) (fun _ _ => False) d := by
  unfold generate
  rw [Job.ends_seq]
  refine ((Job.ends_of_run hrel).and (Path.relative_neat P header d)).mono (fun rel' _ h' => ?_)
    fun _ _ h' => h'.1
  obtain ⟨⟨rfl, _⟩, _, rfl⟩ := h'
  rw [if_neg (by simp [hheader]), Job.ends_seq, Job.ends_ofExcept]
  cases h with
  | @marked marker hM hthere =>
    rw [hM]
    dsimp only
    rw [Job.ends_seq, Job.ends_exists, if_pos hthere]
    exact ⟨rfl, rfl⟩
  | @unmarked marker hM hex hfile hfiles =>
    rw [hM]
    dsimp only
    rw [Job.ends_seq, Job.ends_exists]
    split
    · exact ⟨rfl, rfl⟩
    · rw [Job.ends_seq, Job.ends_isFile, hfile, if_neg (by simp), Job.ends_seq, hex]
      refine (describeHeader_there hfile).mono (fun h d₁ hd₁ => ?_) fun _ _ h => h
      obtain ⟨rfl, hname⟩ := hd₁
      exact writeAll_covered _ (hfiles h hname)

/-! ## 3. Runs one after another -/

/-- The path of a header is not the root of the project. -/
theorem segments_of_isHeader (h : P.isHeader rel = true) : rel.segments ≠ [] := by
  obtain ⟨n, hn⟩ := Path.fileName?_of_hasExtension h
  obtain ⟨A, hA, _⟩ := Path.fileName?_last hn
  have hmem : n ∈ rel.names := hA ▸ List.mem_append_right _ (List.mem_singleton_self n)
  exact List.ne_nil_of_mem (Path.mem_names hmem).2

/-- **A second run writes nothing and changes nothing.** When the mock of a header was
generated, with or without a file being written, generating it again says that no file
was written, and leaves the disk as it is. This is so whatever is excluded, whatever was
there, and whatever the header came to hold. -/
theorem generate_again {wrote : Bool} (h : ((generate P header).run d).value = .ok wrote) :
    ((generate P header).run ((generate P header).run d).disk).value = .ok false ∧
      ((generate P header).run ((generate P header).run d).disk).disk =
        ((generate P header).run d).disk := by
  obtain ⟨rel, hrel, hheader, hfinished, hbefore⟩ := (generate_finishes P header d).of_run_ok h
  have hlater : ((P.relative header).run ((generate P header).run d).disk).value = .ok rel := by
    rcases hbefore with hsame | hfile
    · rw [hsame]
      exact hrel
    · exact relative_later (Job.run_grows _ d) hrel (segments_of_isHeader hheader) hfile
  have hagain := generate_finished hlater hheader hfinished
  cases hv : ((generate P header).run ((generate P header).run d).disk).value with
  | ok wrote' =>
    obtain ⟨rfl, hsame⟩ := hagain.of_run_ok hv
    exact ⟨rfl, hsame⟩
  | error e => exact (hagain.of_run_error hv).elim

/-- A project with a header and one of its mock files. -/
def halfMocked : Disk :=
  ⟨[(["w"], .directory), (["w", "src"], .directory),
    (["w", "src", "a.h"], .file (.text "class A {};\n")),
    (["w", "tests"], .directory), (["w", "tests", "mocks"], .directory),
    (["w", "tests", "mocks", "mock_a.cpp"], .file (.text "// mine\n"))]⟩

/-- Where the marker is excluded, the first run writes the other mock file. The second
one writes nothing, although there is no marker. -/
theorem unmarked_mock_again : ∃ d',
    ((generate Outputs.markedProject ⟨false, ["src", "a.h"]⟩).run halfMocked).value = .ok true ∧
    ((generate Outputs.markedProject ⟨false, ["src", "a.h"]⟩).run halfMocked).disk = d' ∧
    (d'.find? ["w", "tests", "mocks", "mock_a.h"]).isSome = true ∧
    d'.find? ["w", "tests", "mocks", "a.h"] = none ∧
    ((generate Outputs.markedProject ⟨false, ["src", "a.h"]⟩).run d').value = .ok false ∧
    ((generate Outputs.markedProject ⟨false, ["src", "a.h"]⟩).run d').disk = d' := by
  have hwrote : ((generate Outputs.markedProject ⟨false, ["src", "a.h"]⟩).run halfMocked).value =
      .ok true := by decide +kernel
  obtain ⟨hvalue, hdisk⟩ := generate_again hwrote
  exact ⟨_, hwrote, rfl, by decide +kernel, by decide +kernel, hvalue, hdisk⟩

end Scaffold.Mocks
