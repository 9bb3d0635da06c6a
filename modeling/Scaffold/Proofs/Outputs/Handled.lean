import Scaffold.Mocks
import Scaffold.Proofs.Project.Standing
import Scaffold.Proofs.Tests.Steps

/-!
# One output at a time

Every file that is generated is handled alike: it is excluded, it is left as it is,
or it is written behind directories that were made for it, and **the report says
which of these it was**.

* `Handled` -- these ways, with what is reported and the disk before and after;
* `Changed`, `Handled.changes` -- **one file is changed at most**, and then it is
  reported;
* `Content.Grown` -- a text with more behind it;
* `declare_handled`, `writeLeaf_handled`, `generateOne_handled`,
  `writeOne_handled` -- **each place that writes takes one of these ways**; what is
  not to be overwritten **only grows**.
-/
namespace Scaffold

open Artifact (BuildList)

/-! ## 1. Ways to handle an output -/

/-- What a file held is still there: a text may have more behind it. -/
def Content.Grown : Content → Content → Prop
  | .text t, c => ∃ s, c = .text (t ++ s)
  | .raw bytes, c => c = .raw bytes

theorem Content.Grown.refl : ∀ c : Content, c.Grown c
  | .text t => ⟨"", by rw [String.append_empty]⟩
  | .raw _ => rfl

theorem Content.Grown.trans {a b c : Content} (h : a.Grown b) (h' : b.Grown c) : a.Grown c := by
  cases a with
  | text t =>
    obtain ⟨s, rfl⟩ := h
    obtain ⟨s', rfl⟩ := h'
    exact ⟨s ++ s', by rw [String.append_assoc]⟩
  | raw bytes =>
    cases h
    exact h'

/-- Directories were made for a file: those that its path needs, or the one that
a build list belongs to. -/
def Project.Readied (P : Project) (p : Path) (d d₁ : Disk) : Prop :=
  d.Prepared (P.absolute p) d₁ ∨ ∃ X, p.segments = X ++ [BuildList.fileName] ∧
    d.makeDirs (P.absolute ⟨p.rooted, X⟩) = (.ok (), d₁)

theorem Project.Readied.extends {P : Project} {p : Path} {d d₁ : Disk} (h : P.Readied p d d₁) :
    d.Extends d₁ := by
  rcases h with h | ⟨X, _, h⟩
  · exact h.extends
  · have hext := d.makeDirs_extends (P.absolute ⟨p.rooted, X⟩)
    rwa [h] at hext

/-- What happens to a file of a project that is to be generated, with what is
reported and the disk before and after. When it is not to be overwritten, only a
build list may be there, and what it held is kept. -/
inductive Handled (P : Project) (p : Path) (overwrite : Bool) : List Record → Disk → Disk → Prop
  /-- Something goes wrong, and directories were made at most. -/
  | failed {d d' : Disk} (h : d.Extends d') : Handled P p overwrite [] d d'
  | excluded {d : Disk} {detail : Option String} (hex : P.excludes p = true) :
      Handled P p overwrite [⟨p, .skippedExcluded, detail⟩] d d
  /-- The file is left as it is. -/
  | left {d : Disk} {o : Outcome} {detail : Option String} (hex : P.excludes p = false)
      (ho : o = .skippedExists ∨ o = .unchanged) : Handled P p overwrite [⟨p, o, detail⟩] d d
  | changed {d d₁ d' : Disk} {o : Outcome} {detail : Option String}
      {content : Option Content → Content} (hex : P.excludes p = false)
      (ho : o = .written ∨ (o = .appended ∧ overwrite = false)) (hready : P.Readied p d d₁)
      (hgrown : overwrite = false → ∀ c, d.readAt (P.absolute p) = .ok c →
        p.fileName? = some BuildList.fileName ∧ c.Grown (content (some c)))
      (hd' : d₁.changeAt (P.absolute p) content = .ok d') :
      Handled P p overwrite [⟨p, o, detail⟩] d d'

variable {P : Project} {d d' : Disk} {p : Path} {overwrite : Bool} {rs : List Record}

/-- Nothing that was there is lost. -/
theorem Handled.grows (h : Handled P p overwrite rs d d') : d.Grows d' := by
  cases h with
  | failed h => exact h.grows
  | excluded => exact .refl d
  | left => exact .refl d
  | changed _ _ hready _ hwrite => exact hready.extends.grows.trans (Disk.changeAt_grows hwrite)

/-- One file was changed, the one that the path leads to, and this is reported. -/
structure Changed (P : Project) (p : Path) (overwrite : Bool) (rs : List Record) (G : Location)
    (d d' : Disk) : Prop where
  included : P.excludes p = false
  reported : ∃ o detail, rs = [⟨p, o, detail⟩] ∧
    (o = .written ∨ (o = .appended ∧ overwrite = false))
  located : d'.locate true (P.absolute p) = .ok G
  holds : ∃ c, d'.find? G = some (.file c)
  others : ∀ l c, l ≠ G → (d'.find? l = some (.file c) ↔ d.find? l = some (.file c))

theorem Changed.modified {G : Location} (h : Changed P p overwrite rs G d d') :
    ∃ r ∈ rs, r.path = p ∧ r.outcome.modified = true := by
  obtain ⟨o, detail, rfl, ho⟩ := h.reported
  refine ⟨_, List.mem_singleton_self _, rfl, ?_⟩
  rcases ho with rfl | ⟨rfl, -⟩ <;> rfl

/-- **One file is changed at most**, and where none is, none is reported. -/
theorem Handled.changes (h : Handled P p overwrite rs d d') :
    (d.Extends d' ∧ ∀ r ∈ rs, r.outcome.modified = false) ∨
      ∃ G, Changed P p overwrite rs G d d' := by
  cases h with
  | failed h => exact .inl ⟨h, fun r hr => absurd hr List.not_mem_nil⟩
  | excluded => exact .inl ⟨.refl d, fun r hr => by rw [List.mem_singleton.mp hr]; rfl⟩
  | left _ ho =>
    refine .inl ⟨.refl d, fun r hr => ?_⟩
    rw [List.mem_singleton.mp hr]
    rcases ho with rfl | rfl <;> rfl
  | @changed _ d₁ _ _ _ content hex ho hready _ hwrite =>
    obtain ⟨G, hne, hG, hput, -⟩ := Disk.changeAt_located hwrite
    refine .inr ⟨G, hex, ⟨_, _, rfl, ho⟩, hG,
      ⟨content (d₁.readAt (P.absolute p)).toOption, ?_⟩, fun l c hl => ?_⟩
    · rw [hput, Disk.find?_put _ hne, if_pos rfl]
    · rw [hput, Disk.find?_put_of_ne _ hne _ hl]
      exact hready.extends.file_iff c

/-- What is reported of a file names it, and if it is excluded, says so. -/
theorem Handled.records (h : Handled P p overwrite rs d d') :
    ∀ r ∈ rs, r.path = p ∧ (P.excludes p = true → r.outcome = .skippedExcluded) := by
  have hincluded : ∀ {o : Outcome} {detail : Option String}, P.excludes p = false →
      ∀ r ∈ [(⟨p, o, detail⟩ : Record)],
        r.path = p ∧ (P.excludes p = true → r.outcome = .skippedExcluded) := by
    intro o detail hex r hr
    rw [List.mem_singleton.mp hr, hex]
    exact ⟨rfl, fun hno => by cases hno⟩
  cases h with
  | failed => exact fun r hr => absurd hr List.not_mem_nil
  | excluded => exact fun r hr => by rw [List.mem_singleton.mp hr]; exact ⟨rfl, fun _ => rfl⟩
  | left hex => exact hincluded hex
  | changed hex => exact hincluded hex

/-- What is written where nothing is to be kept. -/
theorem Handled.written {d₁ : Disk} {t : String} {detail : Option String}
    (hex : P.excludes p = false) (hready : P.Readied p d d₁)
    (hkeep : overwrite = false → ∀ c, d.readAt (P.absolute p) ≠ .ok c)
    (hd' : d₁.changeAt (P.absolute p) (fun _ => .text t) = .ok d') :
    Handled P p overwrite [⟨p, .written, detail⟩] d d' :=
  .changed hex (.inl rfl) hready (fun ho c hc => absurd hc (hkeep ho c)) hd'

/-! ## 2. Build lists -/

namespace BuildTree

/-- **Declaring a child** leaves a list as it is, extends it or starts it. The path of
the directory does not end in a slash. -/
theorem declare_handled (P : Project) {K : Path} (hK : Path.openEnd K.segments = K.segments)
    (child : String) (d : Disk) :
    (declare P K child).Leaves (Handled P (K.child BuildList.fileName) false) d := by
  have hfile : K.child BuildList.fileName = ⟨K.rooted, K.segments ++ [BuildList.fileName]⟩ := by
    unfold Path.child Path.join
    rw [if_neg (by simp), hK]
  unfold declare
  simp only
  split
  · rename_i hex
    exact Job.leaves_report (.excluded hex)
  · rename_i hex
    have hex : P.excludes (K.child BuildList.fileName) = false := by simpa using hex
    refine Job.leaves_look (Job.reads_tryText _) (.failed (.refl d)) ?_
    rw [Job.ends_tryText]
    split
    · rename_i t ht
      have ht := asText_eq_ok ht
      split
      · exact Job.leaves_report (.left hex (.inr rfl))
      · refine Job.leaves_reported
          (fun _ d' => d.changeAt (P.absolute (K.child BuildList.fileName)) (fun old =>
            (old.getD (.text "")).append (separator t ++ BuildList.declaration child ++ "\n")) =
              .ok d')
          (fun _ d' => d' = d) (fun r => Job.says_accept _ r) (Job.ends_append.mpr ?_)
          (fun d' h => .changed hex (.inr ⟨rfl, rfl⟩) (.inl (.inl rfl)) (fun _ c hc => ?_) h)
          fun _ d' h => .failed (h ▸ .refl d)
        · split
          · assumption
          · rfl
        · rw [ht] at hc
          cases hc
          rw [hfile]
          exact ⟨Path.fileName?_concat fileName_isName, _, rfl⟩
    · rename_i ht
      have ht := asText_eq_notFound ht
      have hext := d.makeDirs_extends (P.absolute K)
      change ((Job.makeDirs _).bind fun _ => (Job.write _ _).bind fun _ =>
        Job.report _ _ _).Leaves _ d
      rw [← Job.bind_assoc]
      refine Job.leaves_reported
        (fun _ d' => ∃ d₁, d.makeDirs (P.absolute K) = (.ok (), d₁) ∧
          d₁.changeAt (P.absolute (K.child BuildList.fileName))
            (fun _ => .text (BuildList.started child)) = .ok d')
        (fun _ d' => d.Extends d')
        (Job.Says.seq (t := Job.makeDirs _) (f := fun _ => Job.write _ _)
          (fun r => Job.says_accept _ r) fun _ r => Job.says_accept _ r) ?_
        (fun d' h => ?_) fun _ d' h => .failed h
      · rw [Job.ends_bind, Job.ends_makeDirs]
        split
        · rename_i d₁ hd₁
          rw [hd₁] at hext
          rw [Job.ends_write]
          split
          · rename_i d' hd'
            exact ⟨d₁, hd₁, hd'⟩
          · exact hext
        · rename_i f d₁ hd₁
          rw [hd₁] at hext
          exact hext
      · obtain ⟨d₁, hd₁, hd'⟩ := h
        have hready : P.Readied (K.child BuildList.fileName) d d₁ :=
          .inr ⟨K.segments, by rw [hfile], by rw [hfile]; exact hd₁⟩
        refine .written hex hready (fun _ c hc => ?_) hd'
        rw [ht] at hc
        cases hc
    · exact Job.leaves_fail _ (.failed (.refl d))

end BuildTree

/-- An artifact that is written and reported. -/
theorem writeArtifact_handled (hex : P.excludes p = false)
    (hkeep : overwrite = false → ∀ c, d.readAt (P.absolute p) ≠ .ok c) (artifact : Artifact)
    (parameters : Artifact.Parameters) :
    (writeArtifact artifact (P.absolute p) parameters >>= fun _ => Job.report p .written none).Leaves
      (Handled P p overwrite) d := by
  refine Job.leaves_reported _ _ (Tests.says_writeArtifact _ _ _) (writeArtifact_ends _ _ _ d)
    (fun d' h => ?_) fun e d' h => .failed h.2
  obtain ⟨t, d₁, _, hd₁, hd'⟩ := h
  exact .written hex (.inl hd₁) hkeep hd'

/-- **The list of a directory** is written anew. -/
theorem BuildTree.writeLeaf_handled (P : Project) (leaf sourceDir : Path) (d : Disk) :
    (writeLeaf P leaf sourceDir).Leaves (Handled P (leaf.child BuildList.fileName) true) d := by
  have hnil : Handled P (leaf.child BuildList.fileName) true [] d d := .failed (.refl d)
  have hlook : ∀ {α : Type} {t : Job α} {f : α → Job Unit}, t.Reads →
      (∀ a, (f a).Leaves (Handled P (leaf.child BuildList.fileName) true) d) →
      (t >>= f).Leaves (Handled P (leaf.child BuildList.fileName) true) d := by
    intro α t f ht hf
    exact Job.leaves_look ht hnil ((Job.ends_grows t d).mono (fun a _ _ => hf a) fun _ _ _ => trivial)
  unfold writeLeaf
  simp only
  split
  · rename_i hex
    exact Job.leaves_report (.excluded hex)
  · rename_i hex
    refine hlook (Tests.compiledFiles_reads P sourceDir) fun sources => ?_
    refine hlook (Tests.compiledFiles_reads P leaf) fun unitTests => ?_
    refine hlook (Tests.includeDirs_reads P) fun dirs => ?_
    refine hlook (Tests.declaredAt_reads _) fun subdirectories => ?_
    exact writeArtifact_handled (by simpa using hex) (fun h => by cases h) _ _

/-! ## 3. Tests and mocks -/

/-- What can be read is there. -/
theorem kindAt_isSome_of_readAt {c : Content} (h : d.readAt p = .ok c) :
    (d.kindAt true p).isSome = true := by
  rw [kindAt_of_readAt h]
  rfl

/-- **The test of a header** is written, and over another one only if it is to be
overwritten. -/
theorem Tests.generateOne_handled {header T : Path} (hT : testDirOf P header = .ok T) (d : Disk) :
    (generateOne P overwrite header).Leaves (Handled P (T.child (testName header)) overwrite) d := by
  have hnil : Handled P (T.child (testName header)) overwrite [] d d := .failed (.refl d)
  rw [generateOne_eq hT]
  split
  · rename_i hex
    exact Job.leaves_report (.excluded hex)
  · rename_i hex
    have hex : P.excludes (T.child (testName header)) = false := by simpa using hex
    refine Job.leaves_look (Job.reads_exists _) hnil ?_
    rw [Job.ends_exists]
    split
    · exact Job.leaves_report (.left hex (.inl rfl))
    · rename_i hthere
      refine Job.leaves_look (describeHeader_isReads _) hnil ?_
      refine (describeHeader_reads _ d).mono (fun h _ _ => ?_) fun _ _ _ => trivial
      refine writeArtifact_handled hex (fun ho c hc => hthere ?_) _ _
      rw [ho, kindAt_isSome_of_readAt hc]
      rfl

/-- **A file of a mock** is written, or kept if it is there. -/
theorem Mocks.writeOne_handled (P : Project) (keeps : Bool) (parameters : Artifact.Parameters)
    (artifact : Artifact) (file : Path) (d : Disk) :
    (writeOne P keeps parameters artifact file).Leaves (Handled P file true) d := by
  unfold writeOne
  split
  · rename_i hex
    exact Job.leaves_value (Job.leaves_report (.excluded hex)) fun _ => rfl
  · rename_i hex
    have hex : P.excludes file = false := by simpa using hex
    refine Job.leaves_look ?_ (.failed (.refl d)) ((Job.ends_grows _ d).mono (fun there _ _ => ?_)
      fun _ _ _ => trivial)
    · split
      · exact Job.reads_exists _
      · exact Job.reads_pure _
    · split
      · exact Job.leaves_value (Job.leaves_report (.left hex (.inl rfl))) fun _ => rfl
      · change ((writeArtifact artifact (P.absolute file) parameters).bind fun _ =>
          (Job.report file .written none).bind fun _ => .done true).Leaves _ d
        rw [← Job.bind_assoc]
        exact Job.leaves_value (writeArtifact_handled hex (fun h => by cases h) _ _) fun _ => rfl

end Scaffold
