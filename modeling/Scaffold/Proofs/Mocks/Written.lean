import Scaffold.Proofs.Disk.Below
import Scaffold.Proofs.Job.Mishaps
import Scaffold.Proofs.Mocks.Again
import Scaffold.Proofs.Mocks.Names
import Scaffold.Proofs.Path.Relocated

/-!
# Writing the mock of a header

The headers of one source tree have their mocks in one tree, beside it.

* `Given` -- a header as it is given to a call; `Given.Lies`: it is there, and the source
  directory on its path lies where the tests do; `Given.Lies.later`: **it stays there**;
* `Given.Lies.located`, `located_inv` -- where the files of its mock lie, if there are no links
  in the tests;
* `Given.Lies.writeArtifact_bears` -- what is new when one of these files is written, whatever is
  denied; `writeAll_reports`, `writeAll_spreads` -- what is reported and what is new when all
  are written, also when that fails;
* `Came` -- the three ways in which a run ends; `Given.Lies.came`: **there is no other one**.
-/
namespace Scaffold.Mocks

variable {x : String}

/-! ## 1. Headers of one source tree -/

/-- What a user writes for a header, with the path in the project that it stands for: what
comes before the source directory, the directory in it, and the name of the header. -/
structure Given where
  input : Path
  base : List String
  directory : List String
  name : String

namespace Given

variable (P : Project) (g : Given)

/-- The path of the header in the project. -/
def path : Path := ⟨false, g.base ++ P.config.sourceDir :: (g.directory ++ [g.name])⟩

/-- The directory of the mock, from that in which the source directory lies. -/
def under : List String := ["tests", "mocks"] ++ g.directory

/-- The path of a file in the directory of the mock. -/
def place (x : String) : Path := ⟨false, g.base ++ (g.under ++ [x])⟩

end Given

/-- The file in a directory of mocks. -/
def fileAt (G : Location) (directory : List String) (x : String) : Location :=
  G ++ ((["tests", "mocks"] ++ directory) ++ [x])

theorem fileAt_inj {G : Location} {B B' : List String} {x y : String} :
    fileAt G B x = fileAt G B' y ↔ B = B' ∧ x = y := by
  constructor
  · intro h
    unfold fileAt at h
    obtain ⟨hB, hx⟩ := List.append_singleton_inj.mp (List.append_cancel_left h)
    exact ⟨List.append_cancel_left hB, hx⟩
  · rintro ⟨rfl, rfl⟩
    rfl

/-- The header is there, in the source tree beside which the tests lie at a location. -/
structure Given.Lies (P : Project) (G : Location) (d : Disk) (g : Given) : Prop where
  relative : ((P.relative g.input).run d).value = .ok (g.path P)
  source : P.config.sourceDir ≠ ".."
  first : P.config.sourceDir ∉ g.base
  based : d.locate true (P.absolute ⟨false, g.base⟩) = .ok G
  names : ∀ s ∈ g.directory ++ [g.name], Path.IsName s
  slashless : '/' ∉ g.name.toList
  header : P.isHeader (g.path P) = true
  file : d.kindAt true (P.absolute (g.path P)) = some .file

/-- What lies on the disk lies in directories, and there are no links in the tests. -/
structure Unlinked (G : Location) (d : Disk) : Prop where
  grounded : d.Grounded
  linkless : ∀ l t, d.find? (G ++ "tests" :: l) ≠ some (.link t)

variable {P : Project} {G : Location} {d d' : Disk} {g c : Given}

/-- **Whatever is asked, it stays so.** -/
theorem Unlinked.reached (h : Unlinked G d) (hr : d.Reaches d') : Unlinked G d' := by
  refine hr.keeps (I := Unlinked G) (fun d q hd => ⟨Disk.answer_grounded hd.grounded q, ?_⟩) h
  exact fun l t hl => hd.linkless l t (d.answer_links q hl)

theorem Unlinked.clear (hd : Unlinked G d) (g : Given) (x : String) :
    d.Clear G (g.under ++ [x]) := by
  rintro X ⟨Y, hXY⟩ hne t
  obtain ⟨s, X, rfl⟩ := List.exists_cons_of_ne_nil hne
  obtain ⟨rfl, -⟩ := List.cons_eq_cons.mp hXY
  exact hd.linkless X t

namespace Given.Lies

/-- The header stays where it is, whatever the disk was grown by. -/
theorem later (h : g.Lies P G d) (hg : d.Grows d') : g.Lies P G d' where
  relative := relative_later hg h.relative (by simp [path]) h.file
  source := h.source
  first := h.first
  based := Disk.locate_grows hg h.based
  names := h.names
  slashless := h.slashless
  header := h.header
  file := Disk.kindAt_grows hg h.file

theorem isName (h : g.Lies P G d) : Path.IsName g.name := h.names _ (by simp)

theorem neat (h : g.Lies P G d) : (g.path P).Neat :=
  ((Path.relative_neat P g.input d).of_run_ok h.relative).1

/-- The way to what the source directory lies in. -/
theorem way (h : g.Lies P G d) : Disk.Way d true Disk.mostLinks []
    (Path.openEnd P.root.segments ++ g.base) (.found G) := by
  have hbased := h.based
  rw [Disk.locate_eq_ok_iff, Disk.resolve_eq_ok_iff, absolute_unrooted P rfl] at hbased
  exact hbased.2

/-- The way from there to the header. -/
theorem to_file (h : g.Lies P G d) : ∃ k content, Disk.Way d true Disk.mostLinks G
    (P.config.sourceDir :: (g.directory ++ [g.name])) (.found k) ∧
      d.find? k = some (.file content) := by
  obtain ⟨k, e, hk, he, hkind⟩ := Disk.kindAt_eq_some_iff.mp h.file
  cases e with
  | file content =>
    rw [Disk.locate_eq_ok_iff, Disk.resolve_eq_ok_iff, absolute_unrooted P rfl] at hk
    have hway := Disk.resolveFrom_eq_ok_iff.mpr hk.2
    obtain ⟨m, hm, happend⟩ := h.way.append
    unfold path at hway
    rw [← List.append_assoc, happend true _ (by simp), Disk.resolveFrom_eq_ok_iff] at hway
    exact ⟨k, content, hway.more_links hm, he⟩
  | directory => cases hkind
  | link t => cases hkind

theorem directory_there (h : g.Lies P G d) : d.find? G = some .directory := by
  obtain ⟨_, _, hway, _⟩ := h.to_file
  exact hway.directory

theorem under_isName (h : g.Lies P G d) : ∀ s ∈ g.under, Path.IsName s := by
  intro s hs
  rcases List.mem_append.mp hs with hs | hs
  · exact mocks_names s hs
  · exact h.names s (List.mem_append_left _ hs)

theorem mem_isName (h : g.Lies P G d) (hx : x ∈ fileNames g.name) : Path.IsName x := by
  obtain ⟨⟨hheader, _⟩, hsource, _⟩ := mock_names h.slashless
  rcases mem_fileNames.mp hx with rfl | rfl | rfl
  · exact hheader
  · exact hsource
  · exact h.isName

theorem file_isName (h : g.Lies P G d) (hx : x ∈ fileNames g.name) :
    ∀ s ∈ g.under ++ [x], Path.IsName s := by
  intro s hs
  rcases List.mem_append.mp hs with hs | hs
  · exact h.under_isName s hs
  · exact List.mem_singleton.mp hs ▸ h.mem_isName hx

theorem absolute_place (P : Project) (g : Given) (x : String) : P.absolute (g.place x) =
    ⟨P.root.rooted, (Path.openEnd P.root.segments ++ g.base) ++ (g.under ++ [x])⟩ := by
  rw [absolute_unrooted P rfl, List.append_assoc]
  rfl

/-- The path of a file of the mock leads to its location, if there is something. -/
theorem located (h : g.Lies P G d) (hd : Unlinked G d) (hx : x ∈ fileNames g.name) {e : Entry}
    (he : d.find? (fileAt G g.directory x) = some e) :
    d.locate true (P.absolute (g.place x)) = .ok (fileAt G g.directory x) := by
  rw [Disk.locate_eq_ok_iff, Disk.resolve_eq_ok_iff, absolute_place]
  refine ⟨?_, h.way.onward hd.grounded (h.file_isName hx) (hd.clear g x) he⟩
  exact Path.text_ne_empty (s := x) (by simp) (h.mem_isName hx).1

theorem located_inv (h : g.Lies P G d) (hd : Unlinked G d) (hx : x ∈ fileNames g.name)
    {l : Location} (hl : d.locate true (P.absolute (g.place x)) = .ok l) :
    l = fileAt G g.directory x := by
  rw [Disk.locate_eq_ok_iff, Disk.resolve_eq_ok_iff, absolute_place] at hl
  exact h.way.onward_inv (h.file_isName hx) (hd.clear g x) hl.2

/-- Whether there is something can be asked. -/
theorem there_iff (h : g.Lies P G d) (hd : Unlinked G d) (hx : x ∈ fileNames g.name) :
    (d.kindAt true (P.absolute (g.place x))).isSome =
      (d.find? (fileAt G g.directory x)).isSome := by
  rw [Bool.eq_iff_iff, Option.isSome_iff_exists, Option.isSome_iff_exists]
  constructor
  · rintro ⟨k, hk⟩
    obtain ⟨l, e, hl, he, -⟩ := Disk.kindAt_eq_some_iff.mp hk
    exact ⟨e, h.located_inv hd hx hl ▸ he⟩
  · rintro ⟨e, he⟩
    exact ⟨_, Disk.kindAt_eq_some_iff.mpr ⟨_, e, h.located hd hx he, he, rfl⟩⟩

theorem place_neat (h : g.Lies P G d) (hx : x ∈ fileNames g.name) : (g.place x).Neat := by
  intro s hs
  rcases List.mem_append.mp hs with hs | hs
  · exact h.neat s (List.mem_append_left _ hs)
  · exact (h.file_isName hx s hs).not_idle

/-- The name of the header, as it is described. -/
theorem fileName (h : g.Lies P G d) : (P.absolute (g.path P)).fileName? = some g.name := by
  rw [absolute_unrooted P rfl]
  unfold path
  rw [← List.cons_append, ← List.append_assoc, ← List.append_assoc, Path.fileName?_concat h.isName]

/-- The marker of the header. -/
theorem relocate (h : g.Lies P G d) :
    relocate (g.path P) P.config.sourceDir mocksDir = .ok (g.place g.name) := by
  have hfirst := Path.relocate_first (T := ["tests", "mocks"]) h.neat h.source h.first
    fun s hs => (mocks_names s hs).not_idle
  refine hfirst.trans ?_
  rw [place, under, List.append_assoc, List.append_assoc]

/-- The files of the mock of the header. -/
theorem files_eq (h : g.Lies P G d) {header : Header} (hname : header.name = g.name) :
    files header (g.place g.name) = (artifacts g.name).map fun f => (f.1, g.place f.2) := by
  have hbeside : ∀ {y : String}, '/' ∉ y.toList →
      (g.place g.name).withFileName y = g.place y := by
    intro y hy
    have hneat := h.place_neat (mem_fileNames.mpr (.inr (.inr rfl)))
    unfold place at hneat ⊢
    rw [← List.append_assoc] at hneat ⊢
    rw [Path.withFileName_concat hneat h.isName.2.2 hy, List.append_assoc]
  obtain ⟨⟨_, hheader⟩, _, hsource⟩ := mock_names h.slashless
  unfold files Header.stem
  rw [hname, hbeside hheader, hbeside hsource]
  rfl

end Given.Lies

/-! ## 2. One run -/

variable {parameters : Artifact.Parameters} {file : Path} {artifact : Artifact}

/-- Where nothing is excluded or kept, one file after another is written and reported. -/
theorem writeAll_cons (hfree : P.excludes file = false) (rest : List (Artifact × Path)) :
    writeAll P false parameters ((artifact, file) :: rest) =
      (writeArtifact artifact (P.absolute file) parameters).bind fun _ =>
        .note ⟨file, .written, none⟩
          ((writeAll P false parameters rest).bind fun _ => .done true) := by
  have hone : writeOne P false parameters artifact file =
      (writeArtifact artifact (P.absolute file) parameters).bind fun _ =>
        .note ⟨file, .written, none⟩ (.done true) := by
    unfold writeOne
    rw [hfree]
    rfl
  change (writeOne P false parameters artifact file).bind _ = _
  rw [hone]
  exact Job.bind_assoc _ _ _

/-- All files are reported, when none of them fails. -/
theorem writeAll_reports (hfree : ∀ p, P.excludes p = false) :
    ∀ {files : List (Artifact × Path)} {d : Disk} {wrote : Bool},
      ((writeAll P false parameters files).run d).value = .ok wrote →
        ((writeAll P false parameters files).run d).report.records =
          files.map fun f => ⟨f.2, .written, none⟩
  | [], _, _, _ => rfl
  | (artifact, file) :: rest, d, wrote, h => by
      have hquiet := (Tests.says_writeArtifact artifact (P.absolute file) parameters).quiet (d := d)
      rw [writeAll_cons (hfree file), Job.run_bind] at h ⊢
      split at h
      · dsimp only at h ⊢
        rw [Job.run_note, Job.run_bind] at h ⊢
        dsimp only at h ⊢
        split at h
        · rename_i more hmore
          dsimp only
          rw [hquiet, writeAll_reports hfree hmore]
          exact congrArg (List.cons _) (List.append_nil _)
        · cases h
      · cases h

/-- An artifact is written where its path leads, and what else is new is directories on the way.
When that fails, whatever is denied, nothing else is new. -/
theorem Given.Lies.writeArtifact_bears (h : g.Lies P G d) (hd : Unlinked G d)
    (hx : x ∈ fileNames g.name) (artifact : Artifact) (parameters : Artifact.Parameters)
    (r : Report) : (writeArtifact artifact (P.absolute (g.place x)) parameters).Bears
      (fun _ r' d' => r' = r ∧ Disk.Spread G g.under [x] d d' ∧ ∃ text,
        artifact.render parameters = .ok text ∧
          d'.find? (fileAt G g.directory x) = some (.file (.text text)))
      (fun _ r' d' => r' = r ∧ Disk.Spread G g.under [] d d') r d := by
  obtain ⟨T, t, hT⟩ := g.under.eq_nil_or_concat.resolve_left (by simp [Given.under])
  rw [List.concat_eq_append] at hT
  have ht : Path.IsName t := h.under_isName t (by simp [hT])
  have hparent : (P.absolute (g.place x)).parent? =
      some ⟨P.root.rooted, (Path.openEnd P.root.segments ++ g.base) ++ g.under⟩ := by
    rw [Given.Lies.absolute_place, ← List.append_assoc,
      Path.parent?_concat (h.mem_isName hx).not_idle, hT, ← List.append_assoc,
      Path.trimEnd_concat ht.not_idle]
  have htext : ¬(⟨P.root.rooted, (Path.openEnd P.root.segments ++ g.base) ++ g.under⟩ :
      Path).text.isEmpty = true := by
    rw [String.isEmpty_iff]
    exact Path.text_ne_empty (s := t) (by simp [hT]) ht.1
  have hspread := Disk.makeDirs_spread (r := P.root.rooted) h.way h.directory_there hd.grounded
    (by simp [Given.under]) h.under_isName ((hd.clear g x).initial (List.prefix_append _ _))
  have hext := d.makeDirs_extends
    ⟨P.root.rooted, (Path.openEnd P.root.segments ++ g.base) ++ g.under⟩
  unfold writeArtifact
  rw [Job.bears_seq, hparent]
  refine Job.bears_ofExcept ?_
  split
  · rename_i text htext'
    dsimp only
    rw [if_neg htext, Job.bears_seq]
    refine Job.bears_makeDirs (Job.bears_write (fun d' hwrite => ?_) fun _ => ⟨rfl, hspread⟩)
      fun _ d₁ hd₁ hd₁' => ⟨rfl, hspread.between hd₁ hd₁'⟩
    rw [Given.Lies.absolute_place] at hwrite
    obtain ⟨hlast, old, hfile⟩ := Disk.changeAt_spread (h.way.found_grows hext.grows)
      (h.file_isName hx) ((hd.clear g x).extends hext) hwrite
    exact ⟨rfl, (hspread.mono (List.nil_subset _)).trans hlast, text, htext', hfile⟩
  · exact ⟨rfl, .refl G _ _ d⟩

/-- **The files of a mock are written where they belong**, and when the last of them fails,
there is nothing new in its place. -/
theorem writeAll_spreads (hfree : ∀ p, P.excludes p = false)
    (parameters : Artifact.Parameters) : ∀ {fs : List (Artifact × String)} {d : Disk},
      g.Lies P G d → Unlinked G d → (∀ f ∈ fs, f.2 ∈ fileNames g.name) →
      (writeAll P false parameters (fs.map fun f => (f.1, g.place f.2))).Ends
        (fun wrote d' => wrote = !fs.isEmpty ∧ Disk.Spread G g.under (fs.map Prod.snd) d d' ∧
          ∀ f ∈ fs, ∃ content, d'.find? (fileAt G g.directory f.2) = some (.file content))
        (fun _ d' => fs ≠ [] ∧ Disk.Spread G g.under (fs.dropLast.map Prod.snd) d d') d
  | [], d, _, _, _ => ⟨rfl, .refl G _ _ d, fun _ hf => absurd hf List.not_mem_nil⟩
  | (artifact, y) :: rest, d, h, hd, hnames => by
      have hy : y ∈ fileNames g.name := hnames _ List.mem_cons_self
      have hone : (writeArtifact artifact (P.absolute (g.place y)) parameters).Ends
          (fun _ d' => Disk.Spread G g.under [y] d d' ∧
            ∃ t, d'.find? (fileAt G g.directory y) = some (.file (.text t)))
          (fun _ d' => Disk.Spread G g.under [] d d') d :=
        ((h.writeArtifact_bears hd hy artifact parameters .empty).mono
          (fun _ _ _ h' => ⟨h'.2.1, h'.2.2.imp fun _ ht => ht.2⟩) fun _ _ _ h' => h'.2).ends
      change (writeAll P false parameters
        ((artifact, g.place y) :: rest.map fun f => (f.1, g.place f.2))).Ends _ _ d
      rw [writeAll_cons (hfree _), Job.ends_bind]
      refine (hone.and (Job.ends_reaches _ d)).mono (fun _ d₁ h₁ => ?_) fun _ d' h₁ => ?_
      · obtain ⟨⟨hspread, t, ht⟩, hreach⟩ := h₁
        change ((writeAll P false parameters _).bind fun _ => .done true).Ends _ _ d₁
        rw [Job.ends_bind]
        refine (writeAll_spreads hfree parameters (h.later hreach.grows) (hd.reached hreach)
          fun f hf => hnames f (List.mem_cons_of_mem _ hf)).grown.mono (fun more d' h' => ?_)
            fun _ d' h' => ?_
        · obtain ⟨⟨-, hrest, hthere⟩, hg⟩ := h'
          refine ⟨rfl, (hspread.mono (by simp)).trans (hrest.mono (by simp)), fun f hf => ?_⟩
          rcases List.mem_cons.mp hf with rfl | hf
          · exact Outputs.file_grows hg ⟨_, ht⟩
          · exact hthere f hf
        · obtain ⟨⟨hne, hrest⟩, -⟩ := h'
          refine ⟨by simp, ?_⟩
          rw [List.dropLast_cons_of_ne_nil hne, List.map_cons]
          exact (hspread.mono (by simp)).trans (hrest.mono (by simp))
      · exact ⟨by simp, h₁.1.mono (List.nil_subset _)⟩

/-- How a run ends that is to generate the mock of a header, where nothing is excluded. -/
inductive Came (P : Project) (G : Location) (g : Given) (d : Disk) : Ended Bool → Prop
  /-- The marker is there, and nothing is done. -/
  | marked (hmarker : (d.find? (fileAt G g.directory g.name)).isSome = true) :
      Came P G g d ⟨.ok false, ⟨[⟨g.place g.name, .skippedExists, none⟩]⟩, d⟩
  /-- All files are written and reported. -/
  | made {d' : Disk} (hmarker : d.find? (fileAt G g.directory g.name) = none)
      (hspread : Disk.Spread G g.under (fileNames g.name) d d')
      (hthere : ∀ x ∈ fileNames g.name, ∃ content,
        d'.find? (fileAt G g.directory x) = some (.file content)) :
      Came P G g d
        ⟨.ok true, ⟨(fileNames g.name).map fun x => ⟨g.place x, .written, none⟩⟩, d'⟩
  /-- Something goes wrong, and at most the files beside the marker are written. -/
  | broken {e : Failure} {report : Report} {d' : Disk}
      (hmarker : d.find? (fileAt G g.directory g.name) = none)
      (hspread : Disk.Spread G g.under [headerName g.name, sourceName g.name] d d') :
      Came P G g d ⟨.error e, report, d'⟩

/-- Without a marker the files are written. -/
theorem Given.Lies.came_unmarked (h : g.Lies P G d) (hd : Unlinked G d)
    (hfree : ∀ p, P.excludes p = false) (hmarker : d.find? (fileAt G g.directory g.name) = none)
    (parameters : Artifact.Parameters) : Came P G g d
      ((writeAll P false parameters
        ((artifacts g.name).map fun f => (f.1, g.place f.2))).run d) := by
  have hnames : ∀ f ∈ artifacts g.name, f.2 ∈ fileNames g.name :=
    fun f hf => List.mem_map_of_mem hf
  have hspreads := writeAll_spreads hfree parameters h hd hnames
  cases hv : ((writeAll P false parameters
      ((artifacts g.name).map fun f => (f.1, g.place f.2))).run d).value with
  | ok wrote =>
    obtain ⟨hwrote, hspread, hthere⟩ := hspreads.of_run_ok hv
    have hrecords := writeAll_reports hfree hv
    revert hv hspread hthere hrecords
    generalize (writeAll P false parameters _).run d = ran
    obtain ⟨value, ⟨records⟩, d'⟩ := ran
    rintro rfl hspread hthere rfl
    subst hwrote
    refine .made hmarker hspread fun x hx => ?_
    obtain ⟨f, hf, rfl⟩ := List.mem_map.mp hx
    exact hthere f hf
  | error e =>
    obtain ⟨-, hspread⟩ := hspreads.of_run_error hv
    revert hv hspread
    generalize (writeAll P false parameters _).run d = ran
    obtain ⟨value, report, d'⟩ := ran
    rintro rfl hspread
    exact .broken hmarker hspread

/-- **There are three ways to end.** -/
theorem Given.Lies.came (h : g.Lies P G d) (hd : Unlinked G d)
    (hfree : ∀ p, P.excludes p = false) : Came P G g d ((generate P g.input).run d) := by
  have hmarker : g.name ∈ fileNames g.name := mem_fileNames.mpr (.inr (.inr rfl))
  have hexists : ((Job.exists (P.absolute (g.place g.name))).run d).value =
      .ok (d.find? (fileAt G g.directory g.name)).isSome :=
    congrArg Except.ok (h.there_iff hd hmarker)
  have hisFile : ((Job.isFile (P.absolute (g.path P))).run d).value = .ok true := by
    change Except.ok (d.kindAt true (P.absolute (g.path P)) == some .file) = _
    rw [h.file]
    rfl
  unfold generate
  rw [(relative_isReads P g.input).run_seq h.relative, if_neg (by simp [h.header]), h.relocate,
    (Job.reads_ofExcept _).run_seq rfl, (Job.reads_exists _).run_seq hexists]
  cases hm : d.find? (fileAt G g.directory g.name) with
  | some e =>
    exact .marked (by rw [hm]; rfl)
  | none =>
    rw [Option.isSome_none, if_neg (by simp), (Job.reads_isFile _).run_seq hisFile,
      if_neg (by simp)]
    have hdescribed := describeHeader_there h.file
    cases hv : ((describeHeader (P.absolute (g.path P))).run d).value with
    | error e => exact (hdescribed.of_run_error hv).elim
    | ok header =>
      have hname : header.name = g.name := by
        rw [(hdescribed.of_run_ok hv).2, h.fileName]
        rfl
      rw [(Tests.describeHeader_isReads _).run_seq hv, hfree, h.files_eq hname]
      exact h.came_unmarked hd hfree hm _

end Scaffold.Mocks
