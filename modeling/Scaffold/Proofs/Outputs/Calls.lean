import Scaffold.Proofs.Outputs.Places
import Scaffold.Proofs.Tests.Enumeration
import Scaffold.Proofs.Tests.Histories

/-!
# Calls without ways up

The five things that can be asked of a project, and where they write when no path
that is given goes up.

* `Path.OfNames` -- relative paths that are lists of names;
* `Tests.Place.ofNames`, `Mocks.Place.ofNames` -- **what is generated for such a
  path lies at such a path**;
* `Call` -- a call; `Call.outputs`: **all that it does is to handle outputs at such
  paths**, unless it finds the marker of a mock.
-/
namespace Scaffold

open Artifact (BuildList)

/-! ## 1. Paths of names -/

namespace Path

/-- The path is a relative one, and a list of names. -/
structure OfNames (p : Path) : Prop where
  unrooted : p.rooted = false
  isName : ∀ s ∈ p.segments, IsName s

variable {p q : Path} {L M : List String}

theorem ofNames_mk (hL : ∀ s ∈ L, IsName s) : (⟨false, L⟩ : Path).OfNames := ⟨rfl, hL⟩

theorem OfNames.neat (h : p.OfNames) : p.Neat := fun s hs => (h.isName s hs).not_idle

theorem OfNames.descends (h : p.OfNames) : p.Descends :=
  ⟨h.unrooted, fun hup => (h.isName ".." hup).2.2 rfl⟩

theorem OfNames.eq (h : p.OfNames) : p = ⟨false, p.segments⟩ := by
  rw [← h.unrooted]

theorem OfNames.child (h : p.OfNames) {s : String} (hs : IsName s) : (p.child s).OfNames := by
  rw [h.neat.child]
  refine ⟨h.unrooted, fun t ht => ?_⟩
  rcases List.mem_append.mp ht with ht | ht
  · exact h.isName t ht
  · exact List.mem_singleton.mp ht ▸ hs

/-- The parent of a path of names, if there is one, and else the root of the
project. -/
theorem OfNames.parent (h : p.OfNames) : (p.parent?.getD Path.empty).OfNames := by
  have hempty : Path.empty.OfNames := ofNames_mk fun s hs => absurd hs List.not_mem_nil
  cases hq : p.parent? with
  | none => exact hempty
  | some q =>
    have hneat := h.neat
    rw [h.eq] at hq hneat
    rcases p.segments.eq_nil_or_concat with hnil | ⟨A, s, hA⟩
    · rw [hnil] at hq
      cases hq
    · rw [hA, List.concat_eq_append] at hq hneat
      rw [hneat.parent?] at hq
      cases hq
      refine ofNames_mk fun t ht => h.isName t ?_
      rw [hA, List.concat_eq_append]
      exact List.mem_append_left _ ht

/-- Relocated, a path of names is one of names. -/
theorem OfNames.relocate (h : p.OfNames) {sourceDir : String} (hM : ∀ s ∈ M, IsName s)
    (hq : relocate p sourceDir ⟨false, M⟩ = .ok q) : q.OfNames := by
  obtain ⟨A, B, hp, rfl⟩ := h.neat.relocate (fun s hs => (hM s hs).not_idle) hq
  refine ⟨h.unrooted, fun s hs => ?_⟩
  rw [List.mem_append, List.mem_append] at hs
  rcases hs with (hs | hs) | hs
  · exact h.isName s (by rw [hp]; simp [hs])
  · exact hM s hs
  · exact h.isName s (by rw [hp]; simp [hs])

/-- A path with another last name. -/
theorem withFileName_concat {r : Bool} {X : List String} {m name : String}
    (h : (⟨r, X ++ [m]⟩ : Path).Neat) (hm : m ≠ "..") (hslash : '/' ∉ name.toList) :
    (⟨r, X ++ [m]⟩ : Path).withFileName name = ⟨r, X ++ [name]⟩ := by
  have hX : (⟨r, X⟩ : Path).Neat := fun t ht => h t (List.mem_append_left _ ht)
  unfold withFileName
  rw [h.fileName? hm, h.parent?, ofText_of_notMem hslash]
  exact hX.child name

end Path

/-- **The path in a project of a path that does not go up** is a path of names. -/
theorem Founded.relative_ofNames {P : Project} {R : Location} {d : Disk} (h : Founded P R d)
    {input rel : Path} (hup : ".." ∉ input.segments)
    (hrel : ((P.relative input).run d).value = .ok rel) : rel.OfNames := by
  obtain ⟨L, rfl, hL⟩ := (h.relative input).of_run_ok hrel
  refine Path.ofNames_mk fun s hs => ?_
  obtain ⟨hidle, hname | hmem⟩ := hL s hs
  · exact hname
  · exact Path.isName_of_not_idle hidle fun e => hup (e ▸ hmem)

/-! ## 2. Places of names -/

variable {P : Project} {R : Location} {d : Disk} {p : Path} {overwrite : Bool}

/-- **What is generated for a path of names lies at one.** -/
theorem Tests.Place.ofNames {S : Path} {o : Bool} (hS : S.OfNames)
    (h : Place P overwrite S p o) : p.OfNames := by
  cases h with
  | test hT => exact (hS.relocate Path.tests_neat hT).child (testName_isName _)
  | @above T x hT hx =>
    have hT := hS.relocate Path.tests_neat hT
    rw [hT.eq] at hx
    obtain ⟨A, B, hAB, hA⟩ := BuildTree.chain_prefix
      (fun s hs => (hT.isName s hs).not_idle) x hx
    rw [hA]
    exact (Path.ofNames_mk fun s hs => hT.isName s (hAB ▸ List.mem_append_left _ hs)).child
      BuildTree.fileName_isName
  | list hT => exact (hS.relocate Path.tests_neat hT).child BuildTree.fileName_isName

theorem mocks_names : ∀ s ∈ ["tests", "mocks"], Path.IsName s := by decide

theorem Mocks.Place.ofNames {rel : Path} (hrel : rel.OfNames) (h : Place P rel p) : p.OfNames := by
  cases h with
  | marker hM => exact hrel.relocate mocks_names hM
  | @beside M name hM hname hslash =>
    have hnames := hrel.relocate mocks_names hM
    obtain ⟨A, B, _, rfl⟩ := hrel.neat.relocate (fun s hs => (mocks_names s hs).not_idle) hM
    rcases (A ++ ["tests", "mocks"] ++ B).eq_nil_or_concat with hnil | ⟨X, m, hX⟩
    · simp at hnil
    · rw [List.concat_eq_append] at hX
      rw [hrel.unrooted, hX] at hnames ⊢
      rw [Path.withFileName_concat hnames.neat (hnames.isName m (by simp)).2.2 hslash]
      refine Path.ofNames_mk fun s hs => ?_
      rcases List.mem_append.mp hs with hs | hs
      · exact hnames.isName s (List.mem_append_left _ hs)
      · exact List.mem_singleton.mp hs ▸ hname

/-! ## 3. Calls -/

/-- Existing tests are overwritten. -/
def Tests.Call.overwrites : Call → Bool
  | .tests o _ => o
  | .tree o _ => o

/-- The directories that a call may visit: that of its input, which is a directory or
a header in one, and for a tree those below it. -/
def Tests.Call.Visits (call : Call) (rel S : Path) : Prop :=
  S = rel ∨ S = rel.parent?.getD Path.empty ∨
    ∃ o input N, call = .tree o input ∧ (∀ s ∈ N, Path.IsName s) ∧
      S = ⟨rel.rooted, rel.segments ++ N⟩

/-- The same for the path in the project that the call is for. -/
def Tests.Call.Visited (P : Project) (d : Disk) (call : Call) (S : Path) : Prop :=
  ∃ rel, ((P.relative call.input).run d).value = .ok rel ∧ call.Visits rel S

/-- **A call that generates tests** writes where the directories belong that it
visits. -/
theorem Tests.Call.handles (h : Founded P R d) (call : Call) :
    (call.job P).Leaves (Handles P (At P call.overwrites (call.Visited P d))) d := by
  cases call with
  | tests o input =>
    exact generate_handles h fun rel hrel => ⟨⟨rel, hrel, .inl rfl⟩, rel, hrel, .inr (.inl rfl)⟩
  | tree o input =>
    exact generateTree_handles h fun rel hrel => ⟨⟨rel, hrel, .inr (.inl rfl)⟩, fun N hN =>
      ⟨rel, hrel, .inr (.inr ⟨o, input, N, rfl, hN, rfl⟩)⟩⟩

/-- A path that is visited begins the one that the call is for, or one below it that a
tree goes through. -/
theorem Tests.Call.Visits.split {call : Call} {L : List String} {S : Path}
    (hneat : (⟨false, L⟩ : Path).Neat) (h : call.Visits ⟨false, L⟩ S) :
    ∃ W M N, S = ⟨false, W⟩ ∧ W ++ M = L ++ N ∧ (N ≠ [] → ∃ o input, call = .tree o input) ∧
      ∀ s ∈ N, Path.IsName s := by
  have hnone : ∀ s ∈ ([] : List String), Path.IsName s := fun s hs => absurd hs List.not_mem_nil
  rcases h with rfl | rfl | ⟨o, input, N, rfl, hN, rfl⟩
  · exact ⟨L, [], [], rfl, rfl, fun h => absurd rfl h, hnone⟩
  · rcases L.eq_nil_or_concat with rfl | ⟨X, s, rfl⟩
    · exact ⟨[], [], [], rfl, rfl, fun h => absurd rfl h, hnone⟩
    · rw [List.concat_eq_append] at hneat ⊢
      rw [hneat.parent?]
      exact ⟨X, [s], [], rfl, (List.append_nil _).symm, fun h => absurd rfl h, hnone⟩
  · exact ⟨L ++ N, [], N, rfl, List.append_nil _, fun _ => ⟨o, input, rfl⟩, hN⟩

/-- From a path of names only such paths are visited. -/
theorem Tests.Call.Visits.ofNames {call : Call} {rel S : Path} (hrel : rel.OfNames)
    (h : call.Visits rel S) : S.OfNames := by
  rcases h with rfl | rfl | ⟨_, _, N, _, hN, rfl⟩
  · exact hrel
  · exact hrel.parent
  · refine ⟨hrel.unrooted, fun s hs => ?_⟩
    rcases List.mem_append.mp hs with hs | hs
    · exact hrel.isName s hs
    · exact hN s hs

namespace Outputs

/-- What can be asked of a project. -/
inductive Call where
  /-- Generates the mock of a header. -/
  | mock (header : Path)
  /-- Generates tests. -/
  | tests (call : Tests.Call)
  /-- Declares a test directory and those above it. -/
  | register (leaf testRoot : Path)
  /-- Writes the list of a test directory. -/
  | relist (leaf sourceDir : Path)

/-- What the call does. Whether a mock was written does not matter here. -/
def Call.job (P : Project) : Call → Job Unit
  | .mock header => Mocks.generate P header >>= fun _ => pure ()
  | .tests call => call.job P
  | .register leaf testRoot => BuildTree.registerChain P leaf testRoot
  | .relist leaf sourceDir => BuildTree.writeLeaf P leaf sourceDir

/-- No path that is given goes up, and test directories are given by relative
paths. -/
def Call.Straight : Call → Prop
  | .mock header => ".." ∉ header.segments
  | .tests call => ".." ∉ call.input.segments
  | .register leaf _ => leaf.Descends
  | .relist leaf _ => leaf.Descends

/-- The call is for the mock of a header that has one already. -/
def Call.Marked (P : Project) (call : Call) (rs : List Record) (d d' : Disk) : Prop :=
  ∃ header rel, call = .mock header ∧ ((P.relative header).run d).value = .ok rel ∧
    Mocks.Marked P rel rs d d'

variable {call : Call}

/-- The call generates mocks or tests. -/
def Call.Generates : Call → Prop
  | .mock _ | .tests _ => True
  | _ => False

/-- The path that the call is for. -/
def Call.input : Call → Path
  | .mock header => header
  | .tests call => call.input
  | .register leaf _ => leaf
  | .relist leaf _ => leaf

/-- Where the call puts what it generates for a path in the project. -/
def Call.Puts (P : Project) (call : Call) (rel p : Path) : Prop :=
  match call with
  | .mock _ => Mocks.Place P rel p
  | .tests call => ∃ S o, call.Visits rel S ∧ Tests.Place P call.overwrites S p o
  | _ => False

/-- **A call that generates** handles the outputs that it puts somewhere, unless it
finds the marker of a mock. -/
theorem Call.generates_handles (h : Founded P R d) (hslash : d.Unslashed)
    (hgenerates : call.Generates) :
    (call.job P).Leaves (fun rs d₁ d' => call.Marked P rs d₁ d' ∨ Handles P (fun _ p _ =>
      ∃ rel, ((P.relative call.input).run d).value = .ok rel ∧ call.Puts P rel p) rs d₁ d') d := by
  cases call with
  | mock header =>
    refine Job.leaves_value ?_ fun _ => rfl
    exact (Mocks.generate_handles hslash).mono fun {rs d'} hleft => hleft.imp_left
      fun ⟨rel, hrel, hmarked⟩ => ⟨header, rel, rfl, hrel, hmarked⟩
  | tests call =>
    refine (Tests.Call.handles h call).mono fun hhandles => .inr (hhandles.mono fun _ p o hp => ?_)
    obtain ⟨S, ⟨rel, hrel, hS⟩, _, hplace⟩ := hp
    exact ⟨rel, hrel, S, o, hS, hplace⟩
  | register leaf testRoot => exact hgenerates.elim
  | relist leaf sourceDir => exact hgenerates.elim

/-- From a path of names the call puts things at such paths. -/
theorem Call.Puts.ofNames {rel : Path} (hrel : rel.OfNames) (h : call.Puts P rel p) :
    p.OfNames := by
  cases call with
  | mock header => exact Mocks.Place.ofNames hrel h
  | tests call =>
    obtain ⟨S, o, hS, hplace⟩ := h
    exact hplace.ofNames (hS.ofNames hrel)
  | register leaf testRoot => exact h.elim
  | relist leaf sourceDir => exact h.elim

/-- **All that a call does** is to handle outputs at paths that do not go up, unless
it finds the marker of a mock. What is generated lies at paths of names. -/
theorem Call.outputs (h : Founded P R d) (hslash : d.Unslashed) (hcall : call.Straight) :
    (call.job P).Leaves (fun rs d d' => call.Marked P rs d d' ∨
      Handles P (fun _ p _ => p.Descends ∧ (call.Generates → p.OfNames)) rs d d') d := by
  have hgenerates : call.Generates → ".." ∉ call.input.segments →
      (call.job P).Leaves (fun rs d d' => call.Marked P rs d d' ∨
        Handles P (fun _ p _ => p.Descends ∧ (call.Generates → p.OfNames)) rs d d') d := by
    intro hg hup
    refine (Call.generates_handles h hslash hg).mono fun {rs d'} hleft =>
      hleft.imp_right fun hhandles => hhandles.mono fun _ p _ hp => ?_
    obtain ⟨rel, hrel, hp⟩ := hp
    have hnames := hp.ofNames (h.relative_ofNames hup hrel)
    exact ⟨hnames.descends, fun _ => hnames⟩
  cases call with
  | mock header => exact hgenerates trivial hcall
  | tests call => exact hgenerates trivial hcall
  | register leaf testRoot =>
    refine .inr (BuildTree.registerChain_handles fun d' _ x hx => ⟨?_, fun hg => hg.elim⟩)
    exact (BuildTree.chain_descends hcall x hx).child (by decide)
  | relist leaf sourceDir =>
    exact .inr (leaves_handles (BuildTree.writeLeaf_handled P leaf sourceDir d)
      ⟨hcall.child (by decide), fun hg => hg.elim⟩)

end Outputs

end Scaffold
