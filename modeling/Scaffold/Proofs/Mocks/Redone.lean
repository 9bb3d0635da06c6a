import Scaffold.Proofs.Mocks.Apart

/-!
# Mocks that were not finished

A run that is to generate a mock may fail at every request, and it can be made again.

* `survey` -- what is found out before a file is written; `generate_eq`: the files are written
  then, and not before;
* `Wrote` -- some files of a mock were written, each with its text, and nothing else is new but
  directories; `Stopped` -- **the writing stopped at one of them**;
* `Fared` -- the four ways in which a run may end, whatever befalls it; `Given.Lies.fared`: there
  is no other one;
* `unfinished_redone` -- **a run that fails leaves no marker**, and a later one that goes well
  writes all files anew, from what the header holds by then.
-/
namespace Scaffold.Mocks

variable {P : Project} {G : Location} {d d₁ d₂ d' : Disk} {g : Given} {x : String}
  {parameters : Artifact.Parameters}

/-! ## 1. What precedes the writing -/

/-- What is found out before a file is written: where the marker belongs and, unless it is there
already, the path of the header and what it declares. -/
def survey (P : Project) (header : Path) : Job (Path × Option (Path × Header)) := do
  let rel ← P.relative header
  if !P.isHeader rel then .fail (P.notHeader rel)
  else
    let marker ← Job.ofExcept (relocate rel P.config.sourceDir mocksDir)
    if ← Job.exists (P.absolute marker) then pure (marker, none)
    else if !(← Job.isFile (P.absolute rel)) then .fail (.notFound rel)
    else
      let h ← describeHeader (P.absolute rel)
      pure (marker, some (rel, h))

/-- What is done when that is known. -/
def carryOut (P : Project) : Path × Option (Path × Header) → Job Bool
  | (marker, none) => do
    Job.report marker .skippedExists none
    pure false
  | (marker, some (rel, h)) =>
    writeAll P (P.excludes marker) (.header h (P.includeSpelling rel)) (files h marker)

/-- **The files of a mock are written after all has been read.** -/
theorem generate_eq (P : Project) (header : Path) :
    generate P header = survey P header >>= carryOut P := by
  -- the steps of the first part are the same on both sides
  have step : ∀ {α : Type} (t : Job α) {f : α → Job (Path × Option (Path × Header))}
      {f' : α → Job Bool}, (∀ a, f' a = (f a).bind (carryOut P)) →
        t.bind f' = (t.bind f).bind (carryOut P) := by
    intro α t f f' h
    rw [Job.bind_assoc, funext h]
  refine step (P.relative header) fun rel => ?_
  split
  · rfl
  refine step (Job.ofExcept _) fun marker => ?_
  refine step (Job.exists _) fun there => ?_
  split
  · rfl
  refine step (Job.isFile _) fun file => ?_
  split
  · rfl
  exact step (describeHeader _) fun h => rfl

theorem relative_sure (P : Project) (p : Path) : (P.relative p).Asks Job.Sure := by
  unfold Project.relative
  split
  · refine Job.Asks.seq ⟨trivial, fun _ => trivial⟩ fun root =>
      Job.Asks.seq ⟨trivial, fun _ => trivial⟩ fun target => ?_
    split <;> trivial
  · trivial

/-- What the files of the mock are made from, when the header holds this. -/
def Given.madeFrom (P : Project) (g : Given) (c : Content) : Artifact.Parameters :=
  .header (Cpp.describe g.name c.lenient) (P.includeSpelling (g.path P))

/-- What is found out about a header: its marker is there, or it is not and the header was read.
When that fails, there is no marker. -/
theorem Given.Lies.survey_bears (h : g.Lies P G d) (hd : Unlinked G d) (r : Report) :
    (survey P g.input).Bears
      (fun found r' d' => (r' = r ∧ d' = d) ∧
        ((found = (g.place g.name, none) ∧
            (d.find? (fileAt G g.directory g.name)).isSome = true) ∨
          ∃ c, found = (g.place g.name, some (g.path P, Cpp.describe g.name c.lenient)) ∧
            d.find? (fileAt G g.directory g.name) = none ∧
              d.readAt (P.absolute (g.path P)) = .ok c))
      (fun _ r' d' => (r' = r ∧ d' = d) ∧ d.find? (fileAt G g.directory g.name) = none) r d := by
  unfold survey
  rw [Job.bears_seq]
  refine Job.bears_look (relative_sure P _) (relative_isReads P _) h.relative ?_
  rw [if_neg (by simp [h.header]), h.relocate, Job.bears_seq]
  refine Job.bears_ofExcept ?_
  dsimp only
  rw [Job.bears_seq]
  refine Job.bears_exists ?_
  rw [h.there_iff hd (mem_fileNames.mpr (.inr (.inr rfl)))]
  split
  · rename_i hmarker
    exact ⟨⟨rfl, rfl⟩, .inl ⟨rfl, hmarker⟩⟩
  rename_i hmarker
  have hmarker : d.find? (fileAt G g.directory g.name) = none := by simpa using hmarker
  rw [Job.bears_seq]
  refine Job.bears_isFile ?_
  rw [h.file, if_neg (by simp), Job.bears_seq]
  unfold describeHeader
  rw [Job.bears_seq]
  refine Job.bears_read (fun c hc => ?_) fun _ => ⟨⟨rfl, rfl⟩, hmarker⟩
  rw [h.fileName]
  exact ⟨⟨rfl, rfl⟩, .inr ⟨c, rfl, hmarker, hc⟩⟩

/-! ## 2. Files that were written -/

/-- What is reported about a file of the mock when nothing goes wrong. -/
def Given.noted (P : Project) (g : Given) (x : String) : Record :=
  ⟨g.place x, if P.excludes (g.place x) then .skippedExcluded else .written, none⟩

/-- The files that are not excluded. -/
def Given.free (P : Project) (g : Given) (fs : List (Artifact × String)) : List String :=
  (fs.map Prod.snd).filter fun x => !P.excludes (g.place x)

/-- These files of the mock were written, each with the text that is made from the parameters,
but for the excluded ones. All that is new besides is directories. -/
structure Wrote (P : Project) (G : Location) (g : Given) (parameters : Artifact.Parameters)
    (fs : List (Artifact × String)) (d d' : Disk) : Prop where
  spread : Disk.Spread G g.under (g.free P fs) d d'
  filled : ∀ f ∈ fs, P.excludes (g.place f.2) = false → ∃ text,
    f.1.render parameters = .ok text ∧
      d'.find? (fileAt G g.directory f.2) = some (.file (.text text))

/-- The other files of the mock are as they were. -/
theorem same_of_spread {names : List String} (h : Disk.Spread G g.under names d d')
    (hx : x ∉ names) : d'.find? (fileAt G g.directory x) = d.find? (fileAt G g.directory x) := by
  rcases h (fileAt G g.directory x) with hsame | ⟨-, X, hX, -, hl⟩ | ⟨y, hy, hl⟩
  · exact hsame
  · -- a directory on the way is not as far down
    have hlength := congrArg List.length hl
    have hshort := hX.length_le
    simp only [fileAt, Given.under, List.length_append, List.length_singleton] at hlength hshort
    omega
  · exact absurd ((fileAt_inj.mp (show _ = fileAt G g.directory y from hl)).2 ▸ hy) hx

theorem Wrote.nil (parameters : Artifact.Parameters) (d : Disk) :
    Wrote P G g parameters [] d d :=
  ⟨.refl G _ _ d, fun _ hf => absurd hf List.not_mem_nil⟩

/-- A file is written, and then others with other names. -/
theorem Wrote.cons {f : Artifact × String} {fs : List (Artifact × String)}
    (h : Wrote P G g parameters [f] d d₁) (hrest : Wrote P G g parameters fs d₁ d')
    (hnew : f.2 ∉ fs.map Prod.snd) : Wrote P G g parameters (f :: fs) d d' where
  spread := by
    have hsplit : g.free P (f :: fs) = g.free P [f] ++ g.free P fs := List.filter_append [f.2] _
    rw [hsplit]
    exact (h.spread.mono (List.subset_append_left _ _)).trans
      (hrest.spread.mono (List.subset_append_right _ _))
  filled := by
    intro f' hf' hfree
    rcases List.mem_cons.mp hf' with rfl | hf'
    · obtain ⟨text, htext, hfile⟩ := h.filled _ (List.mem_singleton_self _) hfree
      have hsame := same_of_spread hrest.spread fun hmem => hnew (List.mem_of_mem_filter hmem)
      exact ⟨text, htext, hsame.trans hfile⟩
    · exact hrest.filled f' hf' hfree

/-- **Whatever is denied, there are no links in the tests**, and the header stays there. -/
theorem Given.Lies.stays (h : g.Lies P G d) (hd : Unlinked G d) {α : Type} (t : Job α)
    (r : Report) : t.Bears (fun _ _ d' => g.Lies P G d' ∧ Unlinked G d')
      (fun _ _ d' => g.Lies P G d' ∧ Unlinked G d') r d := by
  have hunlinked := Job.bears_keeps (I := Unlinked G) (fun _ q hd => hd.reached (.step .refl q))
    (fun _ _ _ _ hd hx => ⟨hx.grounded hd.grounded, fun l t ht => ?_⟩) t r d hd
  · exact (hunlinked.and (Job.bears_grows t r d)).mono (fun _ _ _ hd' => ⟨h.later hd'.2, hd'.1⟩)
      fun _ _ _ hd' => ⟨h.later hd'.2, hd'.1⟩
  · rcases hx.extends (G ++ "tests" :: l) with hsame | ⟨-, hdir⟩
    · exact hd.linkless l t (hsame ▸ ht)
    · rw [hdir] at ht
      cases ht

/-- The writing of the files stopped at one of them, after those before it were written and
reported. Directories at most were made for that one. -/
inductive Stopped (P : Project) (G : Location) (g : Given) (parameters : Artifact.Parameters)
    (fs : List (Artifact × String)) (d : Disk) : Failure → List Record → Disk → Prop
  | intro {done rest : List (Artifact × String)} {f : Artifact × String} {d₁ d' : Disk}
      {e : Failure} {r : Report} (hsplit : fs = done ++ f :: rest)
      (hdone : Wrote P G g parameters done d d₁) (hfree : P.excludes (g.place f.2) = false)
      (hfail : (writeArtifact f.1 (P.absolute (g.place f.2)) parameters).Fares d₁ r
        ⟨.error e, r, d'⟩)
      (hdirs : Disk.Spread G g.under [] d₁ d') :
      Stopped P G g parameters fs d e (done.map fun f => g.noted P f.2) d'

/-- A file was written before. -/
theorem Stopped.cons {f : Artifact × String} {fs : List (Artifact × String)} {e : Failure}
    {records : List Record} (hstop : Stopped P G g parameters fs d₁ e records d')
    (h : Wrote P G g parameters [f] d d₁) (hnew : f.2 ∉ fs.map Prod.snd) :
    Stopped P G g parameters (f :: fs) d e (g.noted P f.2 :: records) d' := by
  cases hstop with
  | @intro done rest f' d₂ d' e r hsplit hdone hfree hfail hdirs =>
    subst hsplit
    refine .intro (List.cons_append (a := f)).symm (h.cons hdone fun hmem => hnew ?_) hfree hfail
      hdirs
    rw [List.map_append]
    exact List.mem_append_left _ hmem

/-- One file is written and reported, or it is excluded, or that fails. -/
theorem Given.Lies.writeOne_bears (h : g.Lies P G d) (hd : Unlinked G d)
    {f : Artifact × String} (hf : f.2 ∈ fileNames g.name) (parameters : Artifact.Parameters)
    (r : Report) : (writeOne P false parameters f.1 (g.place f.2)).Bears
      (fun _ r' d' => r' = r.add (g.noted P f.2) ∧ Wrote P G g parameters [f] d d')
      (fun e r' d' => r' = r ∧ P.excludes (g.place f.2) = false ∧ Disk.Spread G g.under [] d d' ∧
        (writeArtifact f.1 (P.absolute (g.place f.2)) parameters).Fares d r ⟨.error e, r', d'⟩)
      r d := by
  unfold writeOne
  split
  · rename_i hex
    have hfree : g.free P [f] = [] := by simp [Given.free, hex]
    refine ⟨by rw [Given.noted, if_pos hex], hfree ▸ .refl G _ _ d, fun f' hf' hex' => ?_⟩
    rw [List.mem_singleton.mp hf', hex] at hex'
    cases hex'
  · rename_i hex
    have hex : P.excludes (g.place f.2) = false := by simpa using hex
    have hfree : g.free P [f] = [f.2] := by simp [Given.free, hex]
    change (writeArtifact f.1 (P.absolute (g.place f.2)) parameters >>= fun _ =>
      Job.report (g.place f.2) .written none >>= fun _ => pure true).Bears _ _ r d
    rw [Job.bears_seq]
    refine ((h.writeArtifact_bears hd hf f.1 parameters r).and (Job.bears_fares _ r d)).mono
      (fun _ r₁ d₁ h₁ => ?_) fun _ _ _ h₁ => ⟨h₁.1.1, hex, h₁.1.2, h₁.2⟩
    obtain ⟨⟨rfl, hspread, hfile⟩, -⟩ := h₁
    refine ⟨by rw [Given.noted, if_neg (by simp [hex])], hfree ▸ hspread, fun f' hf' _ => ?_⟩
    rwa [List.mem_singleton.mp hf']

/-- **All files are written and reported, or the writing stops at one of them.** -/
theorem Given.Lies.writeAll_bears (parameters : Artifact.Parameters) :
    ∀ {fs : List (Artifact × String)} {d : Disk} (r : Report), g.Lies P G d → Unlinked G d →
      (∀ f ∈ fs, f.2 ∈ fileNames g.name) → (fs.map Prod.snd).Nodup →
      (writeAll P false parameters (fs.map fun f => (f.1, g.place f.2))).Bears
        (fun _ r' d' => r'.records = r.records ++ fs.map (fun f => g.noted P f.2) ∧
          Wrote P G g parameters fs d d')
        (fun e r' d' => ∃ records, r'.records = r.records ++ records ∧
          Stopped P G g parameters fs d e records d') r d
  | [], d, r, _, _, _, _ => ⟨(List.append_nil _).symm, .nil parameters d⟩
  | f :: fs, d, r, h, hd, hnames, hnodup => by
      rw [List.map_cons, List.nodup_cons] at hnodup
      change (writeOne P false parameters f.1 (g.place f.2) >>= fun wrote =>
        writeAll P false parameters (fs.map fun f => (f.1, g.place f.2)) >>= fun more =>
          pure (wrote || more)).Bears _ _ r d
      rw [Job.bears_seq]
      refine ((h.writeOne_bears hd (hnames f List.mem_cons_self) parameters r).and
        (h.stays hd _ r)).mono (fun _ r₁ d₁ h₁ => ?_) fun e r' d' h' => ?_
      · obtain ⟨⟨rfl, hone⟩, hlies, hunlinked⟩ := h₁
        rw [Job.bears_seq]
        refine (Given.Lies.writeAll_bears parameters _ hlies hunlinked
          (fun f' hf' => hnames f' (List.mem_cons_of_mem _ hf')) hnodup.2).mono
            (fun _ r' d' h' => ?_) fun e r' d' h' => ?_
        · refine ⟨?_, hone.cons h'.2 hnodup.1⟩
          rw [h'.1]
          exact List.append_assoc _ _ _
        · obtain ⟨records, hrecords, hstopped⟩ := h'
          refine ⟨g.noted P f.2 :: records, ?_, ?_⟩
          · rw [hrecords]
            exact List.append_assoc _ _ _
          · exact hstopped.cons hone hnodup.1
      · obtain ⟨⟨rfl, hfree, hspread, hfail⟩, -⟩ := h'
        exact ⟨[], (List.append_nil _).symm,
          .intro (List.nil_append _).symm (.nil parameters d) hfree hfail hspread⟩

/-! ## 3. How a run ends -/

/-- How a run ends that is to generate the mock of a header, whatever befalls it. -/
inductive Fared (P : Project) (G : Location) (g : Given) (d : Disk) : Ended Bool → Prop
  /-- The marker is there, and nothing is done. -/
  | marked (hmarker : (d.find? (fileAt G g.directory g.name)).isSome = true) :
      Fared P G g d ⟨.ok false, ⟨[⟨g.place g.name, .skippedExists, none⟩]⟩, d⟩
  /-- The header is not read, or it is of no use: nothing is done. -/
  | unread {e : Failure} (hmarker : d.find? (fileAt G g.directory g.name) = none)
      (hfail : (survey P g.input).Fares d .empty ⟨.error e, .empty, d⟩) :
      Fared P G g d ⟨.error e, .empty, d⟩
  /-- The header is read, and a file is not written. -/
  | unwritten {c : Content} {e : Failure} {records : List Record} {d' : Disk}
      (hmarker : d.find? (fileAt G g.directory g.name) = none)
      (hread : d.readAt (P.absolute (g.path P)) = .ok c)
      (hstop : Stopped P G g (g.madeFrom P c) (artifacts g.name) d e records d') :
      Fared P G g d ⟨.error e, ⟨records⟩, d'⟩
  /-- The header is read, and all files are written. -/
  | written {c : Content} {wrote : Bool} {d' : Disk}
      (hmarker : d.find? (fileAt G g.directory g.name) = none)
      (hread : d.readAt (P.absolute (g.path P)) = .ok c)
      (hdone : Wrote P G g (g.madeFrom P c) (artifacts g.name) d d') :
      Fared P G g d ⟨.ok wrote, ⟨(artifacts g.name).map fun f => g.noted P f.2⟩, d'⟩

/-- **There is no other way to end**, where the marker is not excluded. -/
theorem Given.Lies.fared (h : g.Lies P G d) (hd : Unlinked G d)
    (hfree : P.excludes (g.place g.name) = false) (hnodup : (fileNames g.name).Nodup)
    {ran : Ended Bool} (hran : (generate P g.input).Fares d .empty ran) : Fared P G g d ran := by
  have hnames : ∀ f ∈ artifacts g.name, f.2 ∈ fileNames g.name :=
    fun f hf => List.mem_map_of_mem hf
  have hbears : (generate P g.input).Bears
      (fun wrote r' d' => Fared P G g d ⟨.ok wrote, r', d'⟩)
      (fun e r' d' => Fared P G g d ⟨.error e, r', d'⟩) .empty d := by
    rw [generate_eq, Job.bears_seq]
    refine ((h.survey_bears hd .empty).and (Job.bears_fares _ .empty d)).mono
      (fun found r₁ d₁ h₁ => ?_) fun e r₁ d₁ h₁ => ?_
    · obtain ⟨⟨⟨rfl, rfl⟩, ⟨rfl, hmarker⟩ | ⟨c, rfl, hmarker, hread⟩⟩, -⟩ := h₁
      · exact .marked hmarker
      · change (writeAll P (P.excludes (g.place g.name)) (g.madeFrom P c)
          (files (Cpp.describe g.name c.lenient) (g.place g.name))).Bears _ _ _ _
        have hfiles := h.files_eq (show (Cpp.describe g.name c.lenient).name = g.name from rfl)
        rw [hfree, hfiles]
        refine (Given.Lies.writeAll_bears (g.madeFrom P c) .empty h hd hnames hnodup).mono
          (fun wrote r' d' h' => ?_) fun e r' d' h' => ?_
        · obtain ⟨records⟩ := r'
          obtain ⟨rfl, hdone⟩ := h'
          exact .written hmarker hread hdone
        · obtain ⟨records⟩ := r'
          obtain ⟨_, rfl, hstop⟩ := h'
          exact .unwritten hmarker hread hstop
    · obtain ⟨⟨⟨rfl, rfl⟩, hmarker⟩, hfail⟩ := h₁
      exact .unread hmarker hfail
  have hends := hbears.fares hran
  split at hends
  · rename_i hvalue
    rwa [← hvalue] at hends
  · rename_i hvalue
    rwa [← hvalue] at hends

/-! ## 4. The next run -/

/-- All that is other on the second disk is what the header holds. -/
def Given.Edited (P : Project) (g : Given) (c : Content) (d d' : Disk) : Prop :=
  ∃ l old, d.locate true (P.absolute (g.path P)) = .ok l ∧ d.find? l = some (.file old) ∧
    d'.find? l = some (.file c) ∧ ∀ k, k ≠ l → d'.find? k = d.find? k

namespace Given.Edited

variable {c : Content}

/-- A file became a file, and all else is as it was. -/
theorem find?_cases (h : g.Edited P c d d') (l : Location) : d'.find? l = d.find? l ∨
    ∃ old, d.find? l = some (.file old) ∧ d'.find? l = some (.file c) := by
  obtain ⟨H, old, -, hold, hnew, hsame⟩ := h
  by_cases hl : l = H
  · exact .inr ⟨old, hl ▸ hold, hl ▸ hnew⟩
  · exact .inl (hsame l hl)

theorem grows (h : g.Edited P c d d') : d.Grows d' := by
  intro l e he
  rcases h.find?_cases l with hsame | ⟨old, hold, hnew⟩
  · exact ⟨e, hsame.trans he, .inl rfl⟩
  · rw [hold] at he
    cases he
    exact ⟨_, hnew, .inr ⟨rfl, rfl⟩⟩

theorem unlinked (h : g.Edited P c d d') (hd : Unlinked G d) : Unlinked G d' where
  grounded := by
    intro l s e he
    have hbefore : ∃ e, d.find? (l ++ [s]) = some e := by
      rcases h.find?_cases (l ++ [s]) with hsame | ⟨old, hold, -⟩
      · exact ⟨e, hsame ▸ he⟩
      · exact ⟨_, hold⟩
    obtain ⟨e, he⟩ := hbefore
    have hdir := hd.grounded l s e he
    rcases h.find?_cases l with hsame | ⟨old, hold, -⟩
    · exact hsame.trans hdir
    · rw [hold] at hdir
      cases hdir
  linkless := by
    intro l t ht
    rcases h.find?_cases (G ++ "tests" :: l) with hsame | ⟨-, -, hnew⟩
    · exact hd.linkless l t (hsame ▸ ht)
    · rw [hnew] at ht
      cases ht

theorem nothing (h : g.Edited P c d d') {l : Location} (hl : d.find? l = none) :
    d'.find? l = none := by
  rcases h.find?_cases l with hsame | ⟨old, hold, -⟩
  · exact hsame.trans hl
  · rw [hold] at hl
    cases hl

theorem read (h : g.Edited P c d d') : d'.readAt (P.absolute (g.path P)) = .ok c := by
  have hg := h.grows
  obtain ⟨l, old, hl, -, hnew, -⟩ := h
  exact Disk.readAt_eq_ok_iff.mpr ⟨l, Disk.locate_grows hg hl, hnew⟩

end Given.Edited

/-- Where the writing stopped the last of the files is not new. -/
theorem Stopped.last {fs : List (Artifact × String)} {f : Artifact × String} {e : Failure}
    {records : List Record} (h : Stopped P G g parameters (fs ++ [f]) d e records d')
    (hnew : f.2 ∉ fs.map Prod.snd) :
    d'.find? (fileAt G g.directory f.2) = d.find? (fileAt G g.directory f.2) := by
  cases h with
  | @intro done rest f' d₁ d' e r hsplit hdone hfree hfail hdirs =>
    have hnot : f.2 ∉ done.map Prod.snd := by
      obtain ⟨early, hearly⟩ : done <+: fs := by
        refine List.prefix_of_prefix_length_le (hsplit ▸ List.prefix_append _ _)
          (List.prefix_append fs [f]) ?_
        have hlength := congrArg List.length hsplit
        simp only [List.length_append, List.length_cons, List.length_nil] at hlength
        omega
      intro hmem
      rw [← hearly, List.map_append] at hnew
      exact hnew (List.mem_append_left _ hmem)
    rw [same_of_spread hdirs List.not_mem_nil]
    exact same_of_spread hdone.spread fun hmem => hnot (List.mem_of_mem_filter hmem)

/-- **A mock that was not finished is generated anew.** When the generation of a mock fails,
whatever was denied, there is no marker. Nothing was done if the header was not read or of no
use; else the files before the one that failed were written and reported, and no others. If then
only the header is edited and a later run goes well, it writes every file, from what the header
holds by then. -/
theorem unfinished_redone (h : g.Lies P G d) (hd : Unlinked G d)
    (hfree : P.excludes (g.place g.name) = false) (hcpp : (Path.cutName g.name).2 ≠ some "cpp")
    {e : Failure} {report : Report}
    (hfail : (generate P g.input).Fares d .empty ⟨.error e, report, d₁⟩) :
    d₁.find? (fileAt G g.directory g.name) = none ∧
    (((survey P g.input).Fares d .empty ⟨.error e, .empty, d⟩ ∧ report = .empty ∧ d₁ = d) ∨
      ∃ c, d.readAt (P.absolute (g.path P)) = .ok c ∧
        Stopped P G g (g.madeFrom P c) (artifacts g.name) d e report.records d₁) ∧
    ∀ {c : Content} {d₂ d₃ : Disk} {wrote : Bool} {later : Report}, g.Edited P c d₁ d₂ →
      (generate P g.input).Fares d₂ .empty ⟨.ok wrote, later, d₃⟩ →
        Wrote P G g (g.madeFrom P c) (artifacts g.name) d₂ d₃ := by
  have hnodup := fileNames_nodup hcpp
  have hgone : d₁.find? (fileAt G g.directory g.name) = none ∧
      (((survey P g.input).Fares d .empty ⟨.error e, .empty, d⟩ ∧ report = .empty ∧ d₁ = d) ∨
        ∃ c, d.readAt (P.absolute (g.path P)) = .ok c ∧
          Stopped P G g (g.madeFrom P c) (artifacts g.name) d e report.records d₁) := by
    cases h.fared hd hfree hnodup hfail with
    | unread hmarker hsurvey => exact ⟨hmarker, .inl ⟨hsurvey, rfl, rfl⟩⟩
    | unwritten hmarker hread hstop =>
      refine ⟨?_, .inr ⟨_, hread, hstop⟩⟩
      rw [← hmarker]
      change ([headerName g.name, sourceName g.name] ++ [g.name]).Nodup at hnodup
      change Stopped P G g _ ([(.mockHeader, headerName g.name),
        (.mockSource, sourceName g.name)] ++ [(.interfaceHeader, g.name)]) d e _ d₁ at hstop
      exact hstop.last fun hmem => (List.nodup_append.mp hnodup).2.2 g.name hmem g.name
        (List.mem_singleton_self _) rfl
  refine ⟨hgone.1, hgone.2, fun {c d₂ d₃ wrote later} hedited hran => ?_⟩
  obtain ⟨hlies, hunlinked⟩ := (h.stays hd _ .empty).of_error hfail
  have hmarker := hedited.nothing hgone.1
  have hfared := (hlies.later hedited.grows).fared (hedited.unlinked hunlinked) hfree hnodup hran
  generalize hended : (⟨.ok wrote, later, d₃⟩ : Ended Bool) = ran at hfared
  cases hfared with
  | marked hthere =>
    rw [hmarker] at hthere
    cases hthere
  | unread => cases congrArg Ended.value hended
  | unwritten => cases congrArg Ended.value hended
  | written _ hread hdone =>
    cases hended
    rw [hedited.read] at hread
    cases hread
    exact hdone

/-- The disk is full when the second file of a mock is to be written. -/
def halfMock : Ended Bool :=
  (generate .usual ⟨false, ["src", "a.h"]⟩).spoilt (.other "disk full") 6 neighbours .empty

/-- The header is edited then. -/
def editedMock : Disk := halfMock.disk.put ["w", "src", "a.h"] (.file (.text "class C {};\n"))

/-- The run fails and leaves a mock header without a marker. After the edit the next run writes
the mock header over, with the text that belongs to the edited header. -/
theorem half_mock_redone :
    let text := Artifact.MockHeader.text (Cpp.describe "a.h" "class C {};\n")
    let again := (generate .usual ⟨false, ["src", "a.h"]⟩).run editedMock
    halfMock.value =
      .error (.disk ⟨true, ["w", "tests", "mocks", "mock_a.cpp"]⟩ (.other "disk full")) ∧
    halfMock.report = ⟨[⟨⟨false, ["tests", "mocks", "mock_a.h"]⟩, .written, none⟩]⟩ ∧
    halfMock.disk.find? ["w", "tests", "mocks", "mock_a.h"] ≠ some (.file (.text text)) ∧
    halfMock.disk.find? ["w", "tests", "mocks", "a.h"] = none ∧
    again.value = .ok true ∧
    again.disk.find? ["w", "tests", "mocks", "mock_a.h"] = some (.file (.text text)) := by
  have hvalue : halfMock.value =
      .error (.disk ⟨true, ["w", "tests", "mocks", "mock_a.cpp"]⟩ (.other "disk full")) := by
    decide +kernel
  have hok : ((generate .usual ⟨false, ["src", "a.h"]⟩).run editedMock).value = .ok true := by
    decide +kernel
  have hhalf : (generate .usual ⟨false, ["src", "a.h"]⟩).Fares neighbours .empty halfMock :=
    Job.fares_spoilt _ _ _ _ _
  have hfail := hhalf.of_value hvalue
  have hlater := (Job.fares_run (generate .usual ⟨false, ["src", "a.h"]⟩) editedMock).of_value hok
  have hd : Unlinked ["w"] neighbours :=
    ⟨by decide +kernel, fun _ _ hl => Disk.linkless_of_entries (by decide) _ _ hl rfl⟩
  have hedited : (inSource "a.h").Edited .usual (.text "class C {};\n") halfMock.disk editedMock :=
    ⟨["w", "src", "a.h"], .text "class A {};\n", by decide +kernel, by decide +kernel,
      Disk.find?_put_self _ ["w", "src"] "a.h" _,
      fun k hk => Disk.find?_put_of_ne _ (by decide) _ hk⟩
  obtain ⟨hmarker, -, hredone⟩ := unfinished_redone (neighbours_lie "a.h" (by decide)) hd rfl
    (by decide +kernel) hfail
  obtain ⟨text, htext, hfile⟩ := (hredone hedited hlater).filled (.mockHeader, headerName "a.h")
    List.mem_cons_self rfl
  obtain rfl := Except.ok.inj htext
  exact ⟨hvalue, by decide +kernel, by decide +kernel, hmarker, hok, hfile⟩

/-- A project with a header that is mocked already, but for its mock header: in the place of that
there is a directory. -/
def spoiltMock : Disk :=
  ⟨[(["w"], .directory), (["w", "src"], .directory), (["w", "src", "a"], .directory),
    (["w", "src", "x.h"], .file (.text "class X {};\n")),
    (["w", "tests"], .directory), (["w", "tests", "mocks"], .directory),
    (["w", "tests", "mocks", "mock_x.h"], .directory),
    (["w", "tests", "mocks", "x.h"], .file (.text "// marker\n"))]⟩

/-- With a path that goes up behind the source directory this is not so: the marker is not
found, since its path leads nowhere. The run that fails makes a directory on that path, and then
the marker is there: the next run writes nothing, whatever the header holds. -/
theorem failed_run_marks :
    let marker : Path := ⟨true, ["w", "tests", "mocks", "a", "..", "x.h"]⟩
    let failed := (generate .usual ⟨false, ["src", "a", "..", "x.h"]⟩).run spoiltMock
    let edited := failed.disk.put ["w", "src", "x.h"] (.file (.text "class Y {};\n"))
    let again := (generate .usual ⟨false, ["src", "a", "..", "x.h"]⟩).run edited
    spoiltMock.kindAt true marker = none ∧ failed.value.isOk = false ∧
      failed.disk.kindAt true marker = some .file ∧ again.value = .ok false ∧
      again.disk.find? ["w", "tests", "mocks", "mock_x.cpp"] = none ∧
      again.disk.find? ["w", "tests", "mocks", "x.h"] = some (.file (.text "// marker\n")) := by
  decide +kernel

end Scaffold.Mocks
