import Scaffold.Proofs.Outputs.Calls

/-!
# What a report says about the disk

* `Told` -- what is new on a disk is reported, and what is reported is there;
  `handled_told`: **each output that is handled tells the truth**, and so does a whole
  call, `report_tells_truth`, however it ends;
* `Unharmed` -- what is excluded is as it was, and is reported as excluded;
  `handled_unharmed`, and `excluded_unharmed` for whole calls.

A call may fail at any step. The records until then are in the report, so both are
proved of every step and carried along the trail.
-/
namespace Scaffold.Outputs

open Artifact (BuildList)

variable {P : Project} {R : Location} {d d₁ d' : Disk} {p : Path} {overwrite : Bool}
  {rs rs' : List Record} {call : Call}

/-! ## 1. One output -/

/-- The record names the file at a location, by its path below the root. -/
def Names (R : Location) (r : Record) (l : Location) : Prop :=
  r.path.rooted = false ∧ l = R ++ r.path.names

instance (R : Location) (r : Record) (l : Location) : Decidable (Names R r l) :=
  inferInstanceAs (Decidable (_ ∧ _))

/-- A file stays a file. -/
theorem file_grows {l : Location} (hg : d.Grows d') (h : ∃ c, d.find? l = some (.file c)) :
    ∃ c, d'.find? l = some (.file c) := by
  obtain ⟨c, hc⟩ := h
  obtain ⟨e, he, hb⟩ := hg l _ hc
  cases e with
  | file c' => exact ⟨c', he⟩
  | directory => cases hb.kind_eq
  | link t => cases hb.kind_eq

/-! ## 2. The truth -/

/-- What was reported is true of the change from one disk to the other. -/
structure Told (P : Project) (R : Location) (rs : List Record) (d d' : Disk) : Prop where
  /-- A file that is new, or holds something else, is reported as changed. -/
  changed : ∀ l c, d'.find? l = some (.file c) → d.find? l = some (.file c) ∨
    ∃ r ∈ rs, r.outcome.modified = true ∧ Names R r l
  /-- What is reported as changed is a file. -/
  there : ∀ r ∈ rs, r.outcome.modified = true →
    d'.locate true (P.absolute r.path) = .ok (R ++ r.path.names) ∧
      ∃ c, d'.find? (R ++ r.path.names) = some (.file c)
  grows : d.Grows d'

/-- Where no file changes, there is nothing to report. -/
theorem Told.nothing (h : ∀ r ∈ rs, r.outcome.modified = false) (hext : d.Extends d') :
    Told P R rs d d' where
  changed := fun _ c hc => .inl ((hext.file_iff c).mp hc)
  there := fun r hr hm => absurd hm (by simp [h r hr])
  grows := hext.grows

theorem Told.append (h : Told P R rs d d₁) (h' : Told P R rs' d₁ d') :
    Told P R (rs ++ rs') d d' where
  changed := by
    intro l c hc
    rcases h'.changed l c hc with hc | ⟨r, hr, hm, hn⟩
    · rcases h.changed l c hc with hc | ⟨r, hr, hm, hn⟩
      · exact .inl hc
      · exact .inr ⟨r, List.mem_append_left _ hr, hm, hn⟩
    · exact .inr ⟨r, List.mem_append_right _ hr, hm, hn⟩
  there := by
    intro r hr hm
    rcases List.mem_append.mp hr with hr | hr
    · obtain ⟨hl, hfile⟩ := h.there r hr hm
      exact ⟨Disk.locate_grows h'.grows hl, file_grows h'.grows hfile⟩
    · exact h'.there r hr hm
  grows := h.grows.trans h'.grows

/-- **What is reported of an output is true.** -/
theorem handled_told (hd' : Stands P R d') (hp : p.Descends)
    (h : Handled P p overwrite rs d d') : Told P R rs d d' := by
  rcases h.changes with ⟨hext, hkept⟩ | ⟨G, hchanged⟩
  · exact .nothing hkept hext
  · have hnamed : G = R ++ p.names := hd'.locate_eq hp hchanged.located
    subst hnamed
    refine ⟨fun l c hc => ?_, fun r hr _ => ?_, h.grows⟩
    · by_cases hl : l = R ++ p.names
      · obtain ⟨r, hr, rfl, hm⟩ := hchanged.modified
        exact .inr ⟨r, hr, hm, hp.unrooted, hl⟩
      · exact .inl ((hchanged.others l c hl).mp hc)
    · rw [(h.records r hr).1]
      exact ⟨hchanged.located, hchanged.holds⟩

/-- The same for many of them. -/
theorem handles_told {wanted : Disk → Path → Bool → Prop}
    (hwanted : ∀ d p o, wanted d p o → p.Descends) (hd : Stands P R d)
    (h : Handles P wanted rs d d') : Told P R rs d d' := by
  exact h.keeps (K := Told P R) (fun _ q hd => hd.answer q)
    (fun d => .nothing (fun r hr => absurd hr List.not_mem_nil) (.refl d)) .append
    (fun _ hd' hp hs => handled_told hd' (hwanted _ _ _ hp) hs) hd

theorem call_told (h : Stands P R d) (hslash : d.Unslashed) (hcall : call.Straight) :
    (call.job P).Leaves (Told P R) d := by
  refine (Call.outputs h.toFounded hslash hcall).mono fun {rs d'} hleft => ?_
  rcases hleft with ⟨header, rel, _, _, ⟨M, _, _, rfl⟩, rfl⟩ | hhandles
  · exact .nothing (fun r hr => by rw [List.mem_singleton.mp hr]; rfl) (.refl _)
  · exact handles_told (fun _ _ _ hp => hp.1) h hhandles

/-- A project in which the second of two tests is there already, and the list of the
tests is no text. -/
def brokenDisk : Disk :=
  ⟨[(["w"], .directory), (["w", "src"], .directory),
    (["w", "src", "a.h"], .file (.text "class A {};\n")),
    (["w", "src", "b.h"], .file (.text "class B {};\n")),
    (["w", "tests"], .directory), (["w", "tests", "ut"], .directory),
    (["w", "tests", "ut", "ut_b.cpp"], .file (.text "// mine\n")),
    (["w", "tests", "ut", "CMakeLists.txt"], .file (.raw [255]))]⟩

/-- The tests of that project. -/
def brokenCall : Call := .tests (.tree false ⟨false, ["src"]⟩)

theorem brokenDisk_stands : Stands Project.usual ["w"] brokenDisk :=
  ⟨⟨by decide +kernel, by decide +kernel, by decide, by decide +kernel, by decide +kernel⟩,
    fun _ _ hl => Disk.linkless_of_entries (d := brokenDisk) (by decide) _ _ hl rfl⟩

/-- What is excluded is as it was, and is reported as excluded. -/
structure Unharmed (P : Project) (R : Location) (rs : List Record) (d d' : Disk) : Prop where
  files : ∀ L, P.excludes ⟨false, L⟩ = true → ∀ c,
    d'.find? (R ++ L) = some (.file c) ↔ d.find? (R ++ L) = some (.file c)
  records : ∀ r ∈ rs, P.excludes r.path = true → r.outcome = .skippedExcluded

theorem Unharmed.append (h : Unharmed P R rs d d₁) (h' : Unharmed P R rs' d₁ d') :
    Unharmed P R (rs ++ rs') d d' where
  files := fun L hL c => (h'.files L hL c).trans (h.files L hL c)
  records := fun r hr => (List.mem_append.mp hr).elim (h.records r) (h'.records r)

/-- **What is excluded is never written**, and never reported otherwise. -/
theorem handled_unharmed (hd' : Stands P R d') (hp : p.OfNames)
    (h : Handled P p overwrite rs d d') : Unharmed P R rs d d' where
  files := by
    intro L hL c
    rcases h.changes with ⟨hext, -⟩ | ⟨G, hchanged⟩
    · exact hext.file_iff c
    · refine hchanged.others _ c fun hG => ?_
      have hnamed : G = R ++ p.names := hd'.locate_eq hp.descends hchanged.located
      rw [List.append_cancel_left (hG.trans hnamed), hp.neat.names, ← hp.eq,
        hchanged.included] at hL
      cases hL
  records := by
    intro r hr hex
    obtain ⟨hpath, hexcluded⟩ := h.records r hr
    exact hexcluded (hpath ▸ hex)

/-- **Excluded files are never created or changed** by a call that generates mocks or
tests, however it ends, and they are reported as excluded, but for the marker of a mock
that is there already. -/
theorem excluded_unharmed (h : Stands P R d) (hslash : d.Unslashed) (hcall : call.Straight)
    (hgenerates : call.Generates) :
    (∀ L, P.excludes ⟨false, L⟩ = true → ∀ c,
      ((call.job P).run d).disk.find? (R ++ L) = some (.file c) ↔
        d.find? (R ++ L) = some (.file c)) ∧
    ∀ r ∈ ((call.job P).run d).report.records, P.excludes r.path = true →
      r.outcome = .skippedExcluded ∨
        (r.outcome = .skippedExists ∧ (d.kindAt true (P.absolute r.path)).isSome = true ∧
          ∃ header rel, call = .mock header ∧ ((P.relative header).run d).value = .ok rel ∧
            relocate rel P.config.sourceDir mocksDir = .ok r.path) := by
  have hleft : (call.job P).Leaves _ d := Call.outputs h.toFounded hslash hcall
  rcases hleft with ⟨header, rel, rfl, hrel, ⟨M, hM, hthere, hrs⟩, hsame⟩ | hhandles
  · rw [hsame, hrs]
    refine ⟨fun _ _ _ => Iff.rfl, fun r hr _ => .inr ?_⟩
    rw [List.mem_singleton.mp hr]
    exact ⟨rfl, hthere, header, rel, rfl, hrel, hM⟩
  · obtain ⟨hfiles, hrecords⟩ := hhandles.keeps (K := Unharmed P R) (fun _ q hd => hd.answer q)
      (fun d => ⟨fun _ _ _ => Iff.rfl, fun r hr => absurd hr List.not_mem_nil⟩) .append
      (fun _ hd' hp hs => handled_unharmed hd' (hp.2 hgenerates) hs) h
    exact ⟨hfiles, fun r hr hex => .inl (hrecords r hr hex)⟩

/-- A project with a header that may not be mocked, for its marker is excluded. -/
def markedProject : Project :=
  { Project.usual with excludes := fun p => p.text == "tests/mocks/a.h" }

def markedDisk : Disk :=
  ⟨[(["w"], .directory), (["w", "src"], .directory),
    (["w", "src", "a.h"], .file (.text "class A {};\n"))]⟩

/-- The files beside the marker are written, and the marker is not. -/
theorem excluded_marker_unwritten :
    ((((Call.mock ⟨false, ["src", "a.h"]⟩).job markedProject).run markedDisk).disk.find?
        ["w", "tests", "mocks", "mock_a.h"]).isSome = true ∧
    (∀ c, ((((Call.mock ⟨false, ["src", "a.h"]⟩).job markedProject).run markedDisk).disk.find?
        ["w", "tests", "mocks", "a.h"]) ≠ some (.file c)) ∧
    ∀ r ∈ (((Call.mock ⟨false, ["src", "a.h"]⟩).job markedProject).run markedDisk).report.records,
      markedProject.excludes r.path = true → r.outcome = .skippedExcluded := by
  have hstands : Stands markedProject ["w"] markedDisk :=
    ⟨⟨by decide +kernel, by decide +kernel, by decide, by decide +kernel, by decide +kernel⟩,
      fun _ _ hl => Disk.linkless_of_entries (d := markedDisk) (by decide) _ _ hl rfl⟩
  obtain ⟨hfiles, hrecords⟩ := excluded_unharmed hstands (by decide +kernel)
    (show (Call.mock ⟨false, ["src", "a.h"]⟩).Straight from show ".." ∉ ["src", "a.h"] by decide)
    trivial
  refine ⟨by decide +kernel, fun c hc => ?_, fun r hr hex => ?_⟩
  · have hold := (hfiles ["tests", "mocks", "a.h"] (by decide +kernel) c).mp hc
    cases hold
  · have hnone : ∀ r ∈ (((Call.mock ⟨false, ["src", "a.h"]⟩).job markedProject).run
        markedDisk).report.records, r.outcome ≠ .skippedExists := by decide +kernel
    exact (hrecords r hr hex).resolve_right fun h => hnone r hr h.1

end Scaffold.Outputs
