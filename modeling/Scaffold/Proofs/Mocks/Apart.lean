import Scaffold.Proofs.Mocks.Written

/-!
# Mocks of different headers

What a call for one header does to the mocks of the others.

* `Came.keeps` -- **the files of another mock stay as they are**, unless the two clash;
* `Came.marks` -- a call makes the marker of its own header and no other, unless a mock file
  passes for one;
* `Came.writes_iff` -- **where they clash a file is written over**;
* `after_keeps`, `after_marks` -- the same for one call after another, and `mocks_apart` all in
  one.
-/
namespace Scaffold.Mocks

variable {P : Project} {G : Location} {d d' : Disk} {g c : Given} {calls : List Given} {x : String}
  {ran : Ended Bool}

/-! ## 1. One run -/

/-- All that is new belongs to the mock, unless its marker is there: then nothing is new. -/
theorem Came.spread (h : Came P G g d ran) : ran.disk = d ∨
    (d.find? (fileAt G g.directory g.name) = none ∧
      Disk.Spread G g.under (fileNames g.name) d ran.disk) := by
  cases h with
  | marked => exact .inl rfl
  | made hmarker hspread => exact .inr ⟨hmarker, hspread⟩
  | broken hmarker hspread =>
    refine .inr ⟨hmarker, hspread.mono fun y hy => mem_fileNames.mpr ?_⟩
    rcases List.mem_cons.mp hy with rfl | hy
    · exact .inl rfl
    · exact .inr (.inl (List.mem_singleton.mp hy))

/-- When the mock was written, its files are there. -/
theorem Came.written (h : Came P G g d ran) (hok : ran.value = .ok true) :
    ∀ x ∈ fileNames g.name, ∃ content,
      ran.disk.find? (fileAt G g.directory x) = some (.file content) := by
  cases h with
  | marked => cases hok
  | made _ _ hthere => exact hthere
  | broken => cases hok

/-- When the marker is there, and only then, this is reported. -/
theorem Came.reported_iff (h : Came P G g d ran) :
    (∃ marker, ran = ⟨.ok false, ⟨[⟨marker, .skippedExists, none⟩]⟩, d⟩) ↔
      (d.find? (fileAt G g.directory g.name)).isSome = true := by
  cases h with
  | marked hmarker => exact ⟨fun _ => hmarker, fun _ => ⟨_, rfl⟩⟩
  | made hmarker =>
    rw [hmarker]
    refine ⟨fun ⟨_, h⟩ => ?_, fun h => by cases h⟩
    cases congrArg Ended.value h
  | broken hmarker =>
    rw [hmarker]
    refine ⟨fun ⟨_, h⟩ => ?_, fun h => by cases h⟩
    cases congrArg Ended.value h

/-- **A run leaves the files of other mocks as they are**, unless the two mocks clash. -/
theorem Came.keeps (h : Came P G c d ran) (hg : g.Lies P G d) (hc : c.Lies P G d)
    (hgrows : d.Grows ran.disk)
    (hapart : c.directory = g.directory → ¬Clash g.name c.name)
    (hmarker : (d.find? (fileAt G g.directory g.name)).isSome = true)
    (hx : x ∈ fileNames g.name) {content : Content}
    (hfile : d.find? (fileAt G g.directory x) = some (.file content)) :
    ran.disk.find? (fileAt G g.directory x) = some (.file content) := by
  rcases h.spread with hsame | ⟨hnone, hspread⟩
  · rwa [hsame]
  rcases hspread (fileAt G g.directory x) with hsame | ⟨hdir, _⟩ | ⟨y, hy, hl⟩
  · rwa [hsame]
  · obtain ⟨e, he, hbecomes⟩ := hgrows _ _ hfile
    rw [hdir] at he
    cases he
    cases hbecomes.kind_eq
  · obtain ⟨hdirectory, rfl⟩ := fileAt_inj.mp (show _ = fileAt G c.directory y from hl)
    by_cases hname : g.name = c.name
    · rw [hdirectory, hname, hnone] at hmarker
      cases hmarker
    · exact absurd ((clash_iff hg.isName.1 hc.isName.1).mpr ⟨hname, x, hx, hy⟩)
        (hapart hdirectory.symm)

/-- A directory of mocks does not lie where the marker of a header belongs. -/
theorem Given.Lies.not_above (hg : g.Lies P G d) (hc : c.Lies P G d) {X : List String}
    (hX : X <+: c.under) : fileAt G g.directory g.name ≠ G ++ X := by
  intro hl
  obtain rfl := List.append_cancel_left hl
  unfold Given.under at hX
  rw [List.append_assoc, List.prefix_append_right_inj] at hX
  obtain ⟨Y, hY⟩ := hX
  -- the header would be a directory on the way to the other one
  obtain ⟨k, content, hway, hk⟩ := hg.to_file
  obtain ⟨k', _, hway', _⟩ := hc.to_file
  obtain ⟨m, _, happend⟩ := hway.append
  have hrest := Disk.resolveFrom_eq_ok_iff.mpr hway'
  rw [← hY, List.append_assoc, ← List.cons_append, happend true _ (by simp),
    Disk.resolveFrom_eq_ok_iff] at hrest
  obtain ⟨s, S, hS⟩ := List.exists_cons_of_ne_nil (show Y ++ [c.name] ≠ [] by simp)
  rw [hS] at hrest
  rw [hrest.directory] at hk
  cases hk

/-- Where the marker of a header is new, it has the name of a file that was written. -/
theorem Given.Lies.new_marker (hg : g.Lies P G d) (hc : c.Lies P G d) {names : List String}
    (hspread : Disk.Spread G c.under names d d')
    (hthere : (d'.find? (fileAt G g.directory g.name)).isSome = true) :
    (d.find? (fileAt G g.directory g.name)).isSome = true ∨
      (c.directory = g.directory ∧ g.name ∈ names) := by
  rcases hspread (fileAt G g.directory g.name) with hsame | ⟨_, X, hX, _, hl⟩ | ⟨y, hy, hl⟩
  · exact .inl (hsame ▸ hthere)
  · exact absurd hl (hg.not_above hc hX)
  · obtain ⟨hdirectory, hname⟩ := fileAt_inj.mp (show _ = fileAt G c.directory y from hl)
    exact .inr ⟨hdirectory.symm, hname ▸ hy⟩

/-- **A run makes the marker of a header only if it is for that header**, unless a mock file
passes for the marker. -/
theorem Came.marks (h : Came P G c d ran) (hg : g.Lies P G d) (hc : c.Lies P G d)
    (hgrows : d.Grows ran.disk)
    (hapart : c.directory = g.directory → ¬PassesFor c.name g.name) :
    (ran.disk.find? (fileAt G g.directory g.name)).isSome = true ↔
      (d.find? (fileAt G g.directory g.name)).isSome = true ∨
        (c.directory = g.directory ∧ c.name = g.name ∧ ran.value = .ok true) := by
  cases h with
  | marked hmarker =>
    refine ⟨.inl, fun h => h.elim id ?_⟩
    rintro ⟨-, -, h⟩
    cases h
  | made hmarker hspread hthere =>
    constructor
    · intro hsome
      refine (hg.new_marker hc hspread hsome).imp_right fun ⟨hdirectory, hname⟩ => ?_
      rcases mem_fileNames.mp hname with h | h | h
      · exact absurd (.inl h) (hapart hdirectory)
      · exact absurd (.inr h) (hapart hdirectory)
      · exact ⟨hdirectory, h.symm, rfl⟩
    · rintro (h | ⟨hdirectory, hname, -⟩)
      · exact hgrows.isSome h
      · obtain ⟨content, hcontent⟩ := hthere c.name (mem_fileNames.mpr (.inr (.inr rfl)))
        rw [hdirectory, hname] at hcontent
        rw [hcontent]
        rfl
  | broken hmarker hspread =>
    constructor
    · intro hsome
      rcases hg.new_marker hc hspread hsome with h | ⟨hdirectory, hname⟩
      · exact .inl h
      · refine absurd ?_ (hapart hdirectory)
        exact (List.mem_cons.mp hname).imp_right List.mem_singleton.mp
    · rintro (h | ⟨-, -, h⟩)
      · exact hgrows.isSome h
      · cases h

/-- **A run that writes a mock writes a file of another one just when the two clash**, and
makes the other header seem mocked just when a mock file passes for its marker. -/
theorem Came.writes_iff (h : Came P G c d ran) (hg : g.Lies P G d) (hc : c.Lies P G d)
    (hd : Unlinked G ran.disk) (hgrows : d.Grows ran.disk) (hok : ran.value = .ok true)
    (hother : c.directory ≠ g.directory ∨ c.name ≠ g.name) :
    ((∃ r ∈ ran.report.records, r.outcome = .written ∧ ∃ x ∈ fileNames g.name,
        ran.disk.locate true (P.absolute r.path) = .ok (fileAt G g.directory x)) ↔
      c.directory = g.directory ∧ Clash g.name c.name) ∧
    ((ran.disk.find? (fileAt G g.directory g.name)).isSome = true ↔
      (d.find? (fileAt G g.directory g.name)).isSome = true ∨
        (c.directory = g.directory ∧ PassesFor c.name g.name)) := by
  cases h with
  | marked => cases hok
  | broken => cases hok
  | @made d' hmarker hspread hthere =>
    have hlocated : ∀ y ∈ fileNames c.name,
        d'.locate true (P.absolute (c.place y)) = .ok (fileAt G c.directory y) := by
      intro y hy
      obtain ⟨content, hcontent⟩ := hthere y hy
      exact (hc.later hgrows).located hd hy hcontent
    have hdifferent : c.directory = g.directory → g.name ≠ c.name :=
      fun h hname => hother.elim (fun hno => hno h) fun hno => hno hname.symm
    constructor
    · constructor
      · rintro ⟨r, hr, -, x, hx, hl⟩
        obtain ⟨y, hy, rfl⟩ := List.mem_map.mp hr
        rw [hlocated y hy] at hl
        obtain ⟨hdirectory, rfl⟩ := fileAt_inj.mp (Except.ok.inj hl)
        exact ⟨hdirectory, (clash_iff hg.isName.1 hc.isName.1).mpr ⟨hdifferent hdirectory, y, hx, hy⟩⟩
      · rintro ⟨hdirectory, hclash⟩
        obtain ⟨-, x, hx, hy⟩ := (clash_iff hg.isName.1 hc.isName.1).mp hclash
        refine ⟨_, List.mem_map_of_mem hy, rfl, x, hx, ?_⟩
        rw [← hdirectory]
        exact hlocated x hy
    · constructor
      · intro hsome
        refine (hg.new_marker hc hspread hsome).imp_right fun ⟨hdirectory, hname⟩ => ?_
        rcases mem_fileNames.mp hname with h | h | h
        · exact ⟨hdirectory, .inl h⟩
        · exact ⟨hdirectory, .inr h⟩
        · exact absurd h (hdifferent hdirectory)
      · rintro (h | ⟨hdirectory, hpass⟩)
        · exact hgrows.isSome h
        · obtain ⟨content, hcontent⟩ := hthere g.name (mem_fileNames.mpr (or_assoc.mp (.inl hpass)))
          rw [hdirectory] at hcontent
          rw [hcontent]
          rfl

/-! ## 2. One run after another -/

/-- The disk after the mocks of some headers were generated, one after another. -/
def after (P : Project) (d : Disk) : List Given → Disk
  | [] => d
  | c :: calls => after P ((generate P c.input).run d).disk calls

theorem after_reaches (P : Project) : ∀ (d : Disk) (calls : List Given), d.Reaches (after P d calls)
  | _, [] => .refl
  | d, c :: calls => (Job.run_reaches (generate P c.input) d).trans (after_reaches P _ calls)

/-- The mock of the header is reported as there already. -/
def Reported (P : Project) (d : Disk) (g : Given) : Prop :=
  ∃ marker, (generate P g.input).run d = ⟨.ok false, ⟨[⟨marker, .skippedExists, none⟩]⟩, d⟩

theorem Given.Lies.reported_iff (h : g.Lies P G d) (hd : Unlinked G d)
    (hfree : ∀ p, P.excludes p = false) :
    Reported P d g ↔ (d.find? (fileAt G g.directory g.name)).isSome = true :=
  (h.came hd hfree).reported_iff

/-- **The files of a mock stay as they are**, whatever mocks are generated later that do not
clash with it. -/
theorem after_keeps (hfree : ∀ p, P.excludes p = false)
    (hx : x ∈ fileNames g.name) {content : Content} :
    ∀ {calls : List Given} {d : Disk}, Unlinked G d → g.Lies P G d →
      (∀ c ∈ calls, c.Lies P G d) →
      (∀ c ∈ calls, c.directory = g.directory → ¬Clash g.name c.name) →
      (d.find? (fileAt G g.directory g.name)).isSome = true →
      d.find? (fileAt G g.directory x) = some (.file content) →
        (after P d calls).find? (fileAt G g.directory x) = some (.file content)
  | [], _, _, _, _, _, _, hfile => hfile
  | c :: calls, d, hd, hg, hcalls, hapart, hmarker, hfile => by
      have hreach := Job.run_reaches (generate P c.input) d
      have hc := hcalls c List.mem_cons_self
      have hcame := hc.came hd hfree
      change (after P ((generate P c.input).run d).disk calls).find? _ = _
      refine after_keeps hfree hx (hd.reached hreach) (hg.later hreach.grows)
        (fun c' hc' => (hcalls c' (List.mem_cons_of_mem c hc')).later hreach.grows)
        (fun c' hc' => hapart c' (List.mem_cons_of_mem c hc')) (hreach.grows.isSome hmarker) ?_
      exact hcame.keeps hg hc hreach.grows (hapart c List.mem_cons_self) hmarker hx hfile

/-- The mock of the header was generated by one of the calls. -/
def MadeBy (P : Project) (d : Disk) (calls : List Given) (g : Given) : Prop :=
  ∃ before c rest, calls = before ++ c :: rest ∧ c.directory = g.directory ∧ c.name = g.name ∧
    ((generate P c.input).run (after P d before)).value = .ok true

theorem madeBy_cons : MadeBy P d (c :: calls) g ↔
    (c.directory = g.directory ∧ c.name = g.name ∧
      ((generate P c.input).run d).value = .ok true) ∨
        MadeBy P ((generate P c.input).run d).disk calls g := by
  constructor
  · rintro ⟨before, c', rest, hsplit, hmade⟩
    rcases before with _ | ⟨b, before⟩
    · obtain ⟨rfl, -⟩ := List.cons_eq_cons.mp hsplit
      exact .inl hmade
    · obtain ⟨rfl, rfl⟩ := List.cons_eq_cons.mp hsplit
      exact .inr ⟨before, c', rest, rfl, hmade⟩
  · rintro (hmade | ⟨before, c', rest, rfl, hmade⟩)
    · exact ⟨[], c, calls, rfl, hmade⟩
    · exact ⟨c :: before, c', rest, rfl, hmade⟩

/-- **A header gets its marker from calls for itself**, unless a mock file passes for it. -/
theorem after_marks (hfree : ∀ p, P.excludes p = false) :
    ∀ {calls : List Given} {d : Disk}, Unlinked G d → g.Lies P G d →
      (∀ c ∈ calls, c.Lies P G d) →
      (∀ c ∈ calls, c.directory = g.directory → ¬PassesFor c.name g.name) →
      (((after P d calls).find? (fileAt G g.directory g.name)).isSome = true ↔
        (d.find? (fileAt G g.directory g.name)).isSome = true ∨ MadeBy P d calls g)
  | [], d, _, _, _, _ => by
      refine ⟨.inl, fun h => h.resolve_right ?_⟩
      rintro ⟨before, c, rest, hsplit, -⟩
      simp at hsplit
  | c :: calls, d, hd, hg, hcalls, hapart => by
      have hreach := Job.run_reaches (generate P c.input) d
      have hc := hcalls c List.mem_cons_self
      have hmarks := (hc.came hd hfree).marks hg hc hreach.grows (hapart c List.mem_cons_self)
      have hrest := after_marks hfree (hd.reached hreach) (hg.later hreach.grows)
        (fun c' hc' => (hcalls c' (List.mem_cons_of_mem c hc')).later hreach.grows)
        fun c' hc' => hapart c' (List.mem_cons_of_mem c hc')
      change ((after P ((generate P c.input).run d).disk calls).find? _).isSome = true ↔ _
      rw [hrest, hmarks, madeBy_cons, or_assoc]

/-- **Mocks of different headers are kept apart by their names, and by nothing else.** In a
project that excludes nothing, with no links in its tests, calls for headers of one source tree
leave the files of a mock that was written as they are, unless the call is for a header of the
same directory whose mock clashes with it. Whether a header is reported as mocked depends on
the calls for the header itself, unless a file of another mock passes for its marker. And where
two mocks clash, the second one does write a file of the first; where a file passes for the
marker of a header, the header is reported as mocked. -/
theorem mocks_apart (hfree : ∀ p, P.excludes p = false) (hd : Unlinked G d) (hg : g.Lies P G d)
    (hcalls : ∀ c ∈ calls, c.Lies P G d) :
    (((generate P g.input).run d).value = .ok true →
      (∀ c ∈ calls, c.directory = g.directory → ¬Clash g.name c.name) →
        ∀ x ∈ fileNames g.name, ∃ content,
          ((generate P g.input).run d).disk.find? (fileAt G g.directory x) =
            some (.file content) ∧
          (after P ((generate P g.input).run d).disk calls).find? (fileAt G g.directory x) =
            some (.file content)) ∧
    ((∀ c ∈ calls, c.directory = g.directory → c.name ≠ g.name → ¬PassesFor c.name g.name) →
      (Reported P (after P d calls) g ↔ Reported P d g ∨ MadeBy P d calls g)) ∧
    ∀ c ∈ calls, c.directory ≠ g.directory ∨ c.name ≠ g.name →
      ((generate P c.input).run d).value = .ok true →
        ((∃ r ∈ ((generate P c.input).run d).report.records, r.outcome = .written ∧
            ∃ x ∈ fileNames g.name, ((generate P c.input).run d).disk.locate true
              (P.absolute r.path) = .ok (fileAt G g.directory x)) ↔
          c.directory = g.directory ∧ Clash g.name c.name) ∧
        (Reported P ((generate P c.input).run d).disk g ↔
          Reported P d g ∨ (c.directory = g.directory ∧ PassesFor c.name g.name)) := by
  refine ⟨fun hok hapart x hx => ?_, fun hapart => ?_, fun c hc hother hok => ?_⟩
  · have hreach := Job.run_reaches (generate P g.input) d
    have hthere := (hg.came hd hfree).written hok
    obtain ⟨content, hcontent⟩ := hthere x hx
    obtain ⟨marker, hmarker⟩ := hthere g.name (mem_fileNames.mpr (.inr (.inr rfl)))
    refine ⟨content, hcontent, ?_⟩
    exact after_keeps hfree hx (hd.reached hreach) (hg.later hreach.grows)
      (fun c hc => (hcalls c hc).later hreach.grows) hapart (by rw [hmarker]; rfl) hcontent
  · have hreach := after_reaches P d calls
    rw [(hg.later hreach.grows).reported_iff (hd.reached hreach) hfree, hg.reported_iff hd hfree]
    refine after_marks hfree hd hg hcalls fun c hc hdirectory => ?_
    by_cases hname : c.name = g.name
    · rw [hname]
      exact not_passesFor_self g.name
    · exact hapart c hc hdirectory hname
  · have hreach := Job.run_reaches (generate P c.input) d
    have hc := hcalls c hc
    rw [(hg.later hreach.grows).reported_iff (hd.reached hreach) hfree, hg.reported_iff hd hfree]
    exact (hc.came hd hfree).writes_iff hg hc (hd.reached hreach) hreach.grows hok hother

/-- A project with two headers. -/
def neighbours : Disk :=
  ⟨[(["w"], .directory), (["w", "src"], .directory),
    (["w", "src", "a.h"], .file (.text "class A {};\n")),
    (["w", "src", "b.h"], .file (.text "class B {};\n"))]⟩

/-- A header right in the source directory. -/
def inSource (n : String) : Given := ⟨⟨false, ["src", n]⟩, [], [], n⟩

theorem neighbours_lie : ∀ n ∈ ["a.h", "b.h"], (inSource n).Lies .usual ["w"] neighbours := by
  intro n hn
  rcases List.mem_cons.mp hn with rfl | hn
  · exact ⟨rfl, by decide, by decide, by decide +kernel, by decide, by decide, by decide +kernel,
      by decide +kernel⟩
  · rw [List.mem_singleton.mp hn]
    exact ⟨rfl, by decide, by decide, by decide +kernel, by decide, by decide, by decide +kernel,
      by decide +kernel⟩

/-- The mock of the first one stays as it is when the second one is mocked, and is not taken for
the mock of the second. -/
theorem neighbours_apart :
    let first := (generate .usual ⟨false, ["src", "a.h"]⟩).run neighbours
    let second := (generate .usual ⟨false, ["src", "b.h"]⟩).run first.disk
    first.value = .ok true ∧ second.value = .ok true ∧
      (∃ content, first.disk.find? ["w", "tests", "mocks", "mock_a.cpp"] = some (.file content) ∧
        second.disk.find? ["w", "tests", "mocks", "mock_a.cpp"] = some (.file content)) ∧
      ¬Reported .usual first.disk (inSource "b.h") := by
  have hd : Unlinked ["w"] neighbours :=
    ⟨by decide +kernel, fun _ _ hl => Disk.linkless_of_entries (by decide) _ _ hl rfl⟩
  have hok : ((generate .usual ⟨false, ["src", "a.h"]⟩).run neighbours).value = .ok true := by
    decide +kernel
  have ha := neighbours_lie "a.h" (by decide)
  have hb := neighbours_lie "b.h" (by decide)
  have hfirst : ∀ c ∈ [inSource "a.h"], c.Lies .usual ["w"] neighbours :=
    fun c hc => List.mem_singleton.mp hc ▸ ha
  have hsecond : ∀ c ∈ [inSource "b.h"], c.Lies .usual ["w"] neighbours :=
    fun c hc => List.mem_singleton.mp hc ▸ hb
  obtain ⟨hkept, -, -⟩ := mocks_apart (fun _ => rfl) hd ha hsecond
  obtain ⟨-, -, hreports⟩ := mocks_apart (fun _ => rfl) hd hb hfirst
  refine ⟨hok, by decide +kernel, hkept hok (fun c hc _ => List.mem_singleton.mp hc ▸ by
    decide +kernel) "mock_a.cpp" (by decide +kernel), ?_⟩
  have hreported := (hreports (inSource "a.h") (by simp) (.inr (by decide)) hok).2
  rintro h
  rcases hreported.mp h with ⟨marker, hbefore⟩ | ⟨-, hpass⟩
  · have hno : ((generate .usual ⟨false, ["src", "b.h"]⟩).run neighbours).value ≠ .ok false := by
      decide +kernel
    exact hno (congrArg Ended.value hbefore)
  · revert hpass
    decide +kernel

/-- A project with three headers whose mocks clash. -/
def rivals : Disk :=
  ⟨[(["w"], .directory), (["w", "src"], .directory),
    (["w", "src", "foo.h"], .file (.text "class Foo {};\n")),
    (["w", "src", "foo.hpp"], .file (.text "class Bar {};\n")),
    (["w", "src", "mock_foo.h"], .file (.text "class Far {};\n"))]⟩

/-- The mock source of the second header replaces that of the first, for their names differ in
their extensions only. The third one is taken for mocked, for its marker would have the name of
the mock header of the first. -/
theorem mocks_clash :
    let first := (generate .usual ⟨false, ["src", "foo.h"]⟩).run rivals
    let second := (generate .usual ⟨false, ["src", "foo.hpp"]⟩).run first.disk
    first.value = .ok true ∧ second.value = .ok true ∧
      second.disk.find? ["w", "tests", "mocks", "mock_foo.cpp"] ≠
        first.disk.find? ["w", "tests", "mocks", "mock_foo.cpp"] ∧
      ((generate .usual ⟨false, ["src", "mock_foo.h"]⟩).run first.disk).value = .ok false ∧
      ((generate .usual ⟨false, ["src", "mock_foo.h"]⟩).run rivals).value = .ok true := by
  decide +kernel

end Scaffold.Mocks
