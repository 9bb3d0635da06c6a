import Mathlib.Data.List.Nodup
import Scaffold.Proofs.BuildList.Reading
import Scaffold.Proofs.BuildTree.Effects

/-!
# A declaration stays

What becomes of the declaration of one child in one list, whatever the developer
wrote there and whatever is registered or written later.

* `settled` -- the number of lines that declare a child, and one more if its
  declaration does not show yet: **no registration changes it**
  (`Declares.settled_eq`);
* `declare_text`, `writeLeaf_text` -- what a job makes of the text of a list;
* `registered_once_iff` -- **the child is declared by one line for good** exactly
  when both ways of reading the old list agree about it.
-/
namespace Scaffold.BuildTree

open Artifact (BuildList)
open Artifact.BuildList (Shows declarations Declarable)

/-! ## 1. One text -/

/-- The number of lines that declare the child when its declaration shows. -/
def settled (child t : String) : Nat :=
  (declarations t.toList).count child +
    if BuildTree.occursIn (BuildList.declaration child).toList t.toList then 0 else 1

variable {child c t t' : String}

theorem settled_of_shows (h : Shows t.toList child) :
    settled child t = (declarations t.toList).count child := by
  unfold settled
  rw [if_pos (BuildList.occursIn_iff.mpr h)]
  rfl

theorem settled_of_not_shows (h : ¬Shows t.toList child) :
    settled child t = (declarations t.toList).count child + 1 := by
  unfold settled
  rw [if_neg (mt BuildList.occursIn_iff.mp h)]

/-- With one declaring line at most, one is left exactly when both readings agree. -/
theorem settled_eq_one_iff (h : (declarations t.toList).count child ≤ 1) :
    settled child t = 1 ↔ (Shows t.toList child ↔ child ∈ declarations t.toList) := by
  rw [← List.count_pos_iff]
  by_cases hs : Shows t.toList child
  · rw [settled_of_shows hs]
    simp only [hs, true_iff]
    omega
  · rw [settled_of_not_shows hs]
    simp only [hs, false_iff]
    omega

/-- What showed shows still. -/
theorem Declares.shows_still (h : Declares child (some t) t') (hn : '\n' ∉ c.toList)
    (hs : Shows t.toList c) : Shows t'.toList c := by
  cases h with
  | shown _ _ => exact hs
  | appended _ _ => exact (BuildList.shows_extended hn t).mpr (.inl hs)

/-- **No declaration changes how many lines are left in the end.** -/
theorem Declares.settled_eq (h : Declares child (some t) t') (hchild : Declarable child)
    (hc : Declarable c) : settled c t' = settled c t := by
  cases h with
  | shown _ _ => rfl
  | appended _ hnot =>
    have hcount : (declarations (BuildList.extended t child).toList).count c =
        (declarations t.toList).count c + if child = c then 1 else 0 := by
      rw [BuildList.declarations_extended hchild.1 hchild.2.2, List.count_append,
        List.count_singleton]
      simp
    have hshows : Shows (BuildList.extended t child).toList c ↔
        Shows t.toList c ∨ Shows (BuildList.declaration child).toList c :=
      BuildList.shows_extended hc.2.2 t
    rw [BuildList.shows_declaration hchild.2.1] at hshows
    by_cases heq : child = c
    · -- the line that was missing is there now
      subst heq
      rw [settled_of_shows (hshows.mpr (.inr rfl)), settled_of_not_shows hnot, hcount,
        if_pos rfl]
    · rw [if_neg heq, Nat.add_zero] at hcount
      by_cases hs : Shows t.toList c
      · rw [settled_of_shows (hshows.mpr (.inl hs)), settled_of_shows hs, hcount]
      · have hs' : ¬Shows (BuildList.extended t child).toList c :=
          fun h => (hshows.mp h).elim hs fun e => heq e.symm
        rw [settled_of_not_shows hs', settled_of_not_shows hs, hcount]

/-! ## 2. One list -/

/-- The file at a path lies at a location and holds a text. -/
structure Held (P : Project) (file : Path) (F : Location) (t : String) (d : Disk) : Prop where
  grounded : d.Grounded
  placed : P.Placed d
  located : d.locate true (P.absolute file) = .ok F
  holds : d.find? F = some (.file (.text t))

variable {P : Project} {file : Path} {F G : Location} {d d' : Disk} {L : List String}

theorem Held.readAt (h : Held P file F t d) : d.readAt (P.absolute file) = .ok (.text t) :=
  Disk.readAt_eq_ok_iff.mpr ⟨F, h.located, h.holds⟩

/-- On a disk that has grown, the file is the same if it holds a text. -/
theorem Held.grown (h : Held P file F t d) (hd' : d'.Grounded) (hg : d.Grows d')
    (ht : d'.find? F = some (.file (.text t'))) : Held P file F t' d' :=
  ⟨hd', Disk.Placed_grows h.placed hg, Disk.locate_grows hg h.located, ht⟩

/-- A list that is changed is the one held, or another file. -/
theorem Held.relisted {old : Option String} {new : String} (h : Held P file F t d)
    (hd' : d'.Grounded) (hg : d.Grows d') (hr : Relisted P L d d' G old new) :
    (old = some t ∧ Held P file F new d') ∨
      (⟨false, L ++ [BuildList.fileName]⟩ ≠ file ∧ Held P file F t d') := by
  by_cases hF : F = G
  · subst hF
    refine .inl ⟨?_, h.grown hd' hg hr.after⟩
    have hbefore := hr.before
    rw [h.holds] at hbefore
    obtain ⟨t₁, rfl, heq⟩ := Option.map_eq_some_iff.mp hbefore.symm
    cases heq
    rfl
  · refine .inr ⟨?_, h.grown hd' hg ((hr.file_iff hF _).mpr h.holds)⟩
    rintro rfl
    have hlocated := Disk.locate_grows hg h.located
    rw [hr.located] at hlocated
    exact hF (Except.ok.inj hlocated).symm

/-- **What declaring a child makes of a list**: it declares the child if it is
the list of that directory and not excluded. -/
theorem declare_text (h : Held P file F t d) (hL : ∀ s ∈ L, Path.IsName s) :
    (declare P ⟨false, L⟩ child).Ends
      (fun _ d' => ∃ t', Held P file F t' d' ∧ (Declares child (some t) t' ∨
        (t' = t ∧ (P.excludes ⟨false, L ++ [BuildList.fileName]⟩ = true ∨
          ⟨false, L ++ [BuildList.fileName]⟩ ≠ file))))
      (fun _ d' => Held P file F t d') d := by
  refine ((declare_relisted h.grounded h.placed hL).kept h.grounded).mono (fun _ d' h' => ?_)
    fun _ d' h' => ?_
  · obtain ⟨hdone, hd', hg⟩ := h'
    rcases hdone with ⟨hex, rfl⟩ | ⟨G, old, new, hr, hdecl⟩
    · exact ⟨t, h, .inr ⟨rfl, .inl hex⟩⟩
    · rcases h.relisted hd' hg hr with ⟨rfl, hnew⟩ | ⟨hne, hold⟩
      · exact ⟨new, hnew, .inl hdecl⟩
      · exact ⟨t, hold, .inr ⟨rfl, .inr hne⟩⟩
  · obtain ⟨⟨_, hext⟩, hd', hg⟩ := h'
    exact h.grown hd' hg ((hext.file_iff _).mpr h.holds)

/-- **What writing a list makes of a list**: nothing, or the planned text, which
declares what was declared. -/
theorem writeLeaf_text (h : Held P file F t d) (hL : ∀ s ∈ L, Path.IsName s) (sourceDir : Path) :
    (writeLeaf P ⟨false, L⟩ sourceDir).Ends
      (fun _ d' => ∃ t', Held P file F t' d' ∧ (t' = t ∨
        (t' = (planned P d ⟨false, L⟩ sourceDir).text ∧
          (planned P d ⟨false, L⟩ sourceDir).subdirectories = BuildList.declaredSubdirectories t)))
      (fun _ d' => Held P file F t d') d := by
  refine ((writeLeaf_relisted P sourceDir h.grounded h.placed hL).kept h.grounded).mono
    (fun _ d' h' => ?_) fun _ d' h' => ?_
  · obtain ⟨hdone, hd', hg⟩ := h'
    rcases hdone with ⟨_, rfl⟩ | ⟨G, old, hr, hsub⟩
    · exact ⟨t, h, .inl rfl⟩
    · rcases h.relisted hd' hg hr with ⟨rfl, hnew⟩ | ⟨_, hold⟩
      · exact ⟨_, hnew, .inr ⟨rfl, hsub⟩⟩
      · exact ⟨t, hold, .inl rfl⟩
  · obtain ⟨⟨_, hext⟩, hd', hg⟩ := h'
    exact h.grown hd' hg ((hext.file_iff _).mpr h.holds)

/-! ## 3. Chains and calls -/

variable {top A B M : List String} {n : Nat}

/-- The held list has its number of declaring lines for good, and beyond the
directory it belongs to, the declaration shows. -/
def Climbing (P : Project) (F : Location) (top A : List String) (c : String) (n : Nat)
    (M : List String) (d : Disk) : Prop :=
  ∃ t, Held P ⟨false, top ++ A ++ [BuildList.fileName]⟩ F t d ∧ settled c t = n ∧
    (M.length ≤ A.length → Shows t.toList c)

/-- **A step up keeps this**, and the step over the list shows the declaration. -/
theorem Climbing.step {s : String} {K : List String} (hK : K ++ [s] <+: A ++ c :: B)
    (hnames : ∀ x ∈ top ++ (A ++ c :: B), Path.IsName x)
    (hclean : ∀ x ∈ A ++ c :: B, Declarable x)
    (hex : P.excludes ⟨false, top ++ A ++ [BuildList.fileName]⟩ = false)
    (h : Climbing P F top A c n (K ++ [s]) d) :
    (declare P ⟨false, top ++ K⟩ s).Ends (fun _ => Climbing P F top A c n K) (fun _ _ => True) d := by
  obtain ⟨t, ht, hn, hshows⟩ := h
  have hs : Declarable s := hclean s (hK.subset (by simp))
  have hc : Declarable c := hclean c (by simp)
  have hL : ∀ x ∈ top ++ K, Path.IsName x := by
    intro x hx
    rcases List.mem_append.mp hx with hx | hx
    · exact hnames x (List.mem_append_left _ hx)
    · exact hnames x (List.mem_append_right _ (hK.subset (List.mem_append_left _ hx)))
  -- at the directory of the list, the step declares the child
  have hhere : K.length = A.length → K = A ∧ s = c := by
    intro hlen
    obtain ⟨rest, hrest⟩ := hK
    rw [List.append_assoc] at hrest
    obtain ⟨rfl, hcons⟩ := List.append_inj hrest hlen
    exact ⟨rfl, (List.cons.inj hcons).1⟩
  refine (declare_text ht hL).mono (fun _ d' h' => ?_) fun _ _ _ => trivial
  obtain ⟨t', ht', hstep⟩ := h'
  rcases hstep with hdecl | ⟨rfl, hother⟩
  · refine ⟨t', ht', (hdecl.settled_eq hs hc).trans hn, fun hlen => ?_⟩
    rcases Nat.lt_or_eq_of_le hlen with hlen | hlen
    · exact hdecl.shows_still hc.2.2 (hshows (by simp; omega))
    · obtain ⟨_, rfl⟩ := hhere hlen
      exact hdecl.shows hc.2.2
  · refine ⟨t', ht', hn, fun hlen => ?_⟩
    rcases Nat.lt_or_eq_of_le hlen with hlen | hlen
    · exact hshows (by simp; omega)
    · obtain ⟨rfl, _⟩ := hhere hlen
      rcases hother with hex' | hne
      · rw [hex] at hex'
        cases hex'
      · exact absurd rfl hne

/-- A call that works on build lists. -/
inductive ListCall where
  /-- Declares the directory and those above it, up to the top. -/
  | register (leaf top : List String)
  /-- Writes the list of a directory anew. -/
  | rewrite (leaf : List String) (sourceDir : Path)

/-- What the call does. -/
def ListCall.job (P : Project) : ListCall → Job Unit
  | .register leaf top => registerChain P ⟨false, leaf⟩ ⟨false, top⟩
  | .rewrite leaf sourceDir => writeLeaf P ⟨false, leaf⟩ sourceDir

/-- What the call works with are names: those that it declares fit into
declarations, and those that it prints keep to their lines and declare
nothing themselves. -/
def ListCall.Fits (P : Project) (d : Disk) : ListCall → Prop
  | .register leaf top => (∀ s ∈ leaf, Path.IsName s) ∧ (∀ s ∈ top, Path.IsName s) ∧
      ∀ s ∈ leaf.drop top.length, Declarable s
  | .rewrite leaf sourceDir => (∀ s ∈ leaf, Path.IsName s) ∧
      (∀ s ∈ (planned P d ⟨false, leaf⟩ sourceDir).printed, '\n' ∉ s.toList) ∧
        ∀ f ∈ (planned P d ⟨false, leaf⟩ sourceDir).unitTests, BuildList.declared? f.toList = none

/-- A disk on which further calls were made, whatever they came to. -/
inductive Later (P : Project) (d₀ : Disk) : Disk → Prop
  | start : Later P d₀ d₀
  | call {d : Disk} (c : ListCall) (h : Later P d₀ d) (hc : c.Fits P d) :
      Later P d₀ ((c.job P).run d).disk

/-- One line of the held list declares the child, and its declaration shows. -/
def HeldOnce (P : Project) (file : Path) (F : Location) (c : String) (d : Disk) : Prop :=
  ∃ t, Held P file F t d ∧ settled c t = 1 ∧ Shows t.toList c

theorem HeldOnce.register {leaf : List String} (hc : Declarable c)
    (hfits : (ListCall.register leaf top).Fits P d) (h : HeldOnce P file F c d) :
    ((ListCall.register leaf top).job P).Ends (fun _ => HeldOnce P file F c)
      (fun _ => HeldOnce P file F c) d := by
  obtain ⟨hleaf, htop, hclean⟩ := hfits
  by_cases hpre : top <+: leaf
  · obtain ⟨M, rfl⟩ := hpre
    rw [List.drop_left] at hclean
    change (registerChain P _ _).Ends _ _ d
    rw [registerChain_names P hleaf]
    refine declareUpTo_ends (I := fun _ => HeldOnce P file F c) hleaf (fun K s d₁ hK h₁ => ?_) h
    obtain ⟨t, ht, hn, hshows⟩ := h₁
    have hs : Declarable s := hclean s (hK.subset (by simp))
    have hL : ∀ x ∈ top ++ K, Path.IsName x := by
      intro x hx
      rcases List.mem_append.mp hx with hx | hx
      · exact htop x hx
      · exact hleaf x (List.mem_append_right _ (hK.subset (List.mem_append_left _ hx)))
    refine (declare_text ht hL).mono (fun _ d' h' => ?_) fun _ d' h' => ⟨t, h', hn, hshows⟩
    obtain ⟨t', ht', hdecl | ⟨rfl, _⟩⟩ := h'
    · exact ⟨t', ht', (hdecl.settled_eq hs hc).trans hn, hdecl.shows_still hc.2.2 hshows⟩
    · exact ⟨t', ht', hn, hshows⟩
  · change (registerChain P ⟨false, leaf⟩ ⟨false, top⟩).Ends _ _ d
    unfold registerChain
    rw [if_neg (mt (Path.startsWith_names hleaf htop).mp hpre)]
    exact h

theorem HeldOnce.rewrite {leaf : List String} {sourceDir : Path}
    (hfits : (ListCall.rewrite leaf sourceDir).Fits P d) (h : HeldOnce P file F c d) :
    ((ListCall.rewrite leaf sourceDir).job P).Ends (fun _ => HeldOnce P file F c)
      (fun _ => HeldOnce P file F c) d := by
  obtain ⟨hleaf, hprinted, htests⟩ := hfits
  obtain ⟨t, ht, hn, hshows⟩ := h
  refine (writeLeaf_text ht hleaf sourceDir).mono (fun _ d' h' => ?_)
    fun _ d' h' => ⟨t, h', hn, hshows⟩
  obtain ⟨t', ht', rfl | ⟨rfl, hsub⟩⟩ := h'
  · exact ⟨t', ht', hn, hshows⟩
  · -- the subdirectories are read from the lines of the old list, each once
    have hquiet : (planned P d ⟨false, leaf⟩ sourceDir).Quiet := by
      refine ⟨hprinted, htests, fun s hs => ?_⟩
      rw [hsub, BuildList.mem_declaredSubdirectories] at hs
      exact BuildList.trimmed_of_mem_declarations hs
    have hmem : c ∈ BuildList.declaredSubdirectories t := by
      rw [BuildList.mem_declaredSubdirectories, ← List.count_pos_iff, ← settled_of_shows hshows, hn]
      exact Nat.one_pos
    have hcount : (BuildList.declaredSubdirectories t).count c = 1 :=
      List.count_eq_one_of_mem (BuildList.nodup_declaredSubdirectories t) hmem
    have hshows' := BuildList.shows_subdirectory (hsub.symm ▸ hmem)
    refine ⟨_, ht', ?_, hshows'⟩
    rw [settled_of_shows hshows', BuildList.declarations_text hquiet, hsub, hcount]

/-- **No later call changes this.** -/
theorem HeldOnce.later (hc : Declarable c) (h : HeldOnce P file F c d) (hl : Later P d d') :
    HeldOnce P file F c d' := by
  induction hl with
  | start => exact h
  | call call _ hfits ih =>
    cases call with
    | register leaf top => exact (ih.register hc hfits).of_run
    | rewrite leaf sourceDir => exact (ih.rewrite hfits).of_run

/-! ## 4. The main result -/

/-- **One line declares the child for good.** Where at most one line of a list
declared the child of a directory, exactly one line does after it was registered
and after whatever calls were made later, if and only if the declaration stood
somewhere in the old list exactly when a line of it declared the child. -/
theorem registered_once_iff {t : String} (hd : d.Grounded) (hroot : P.Placed d)
    (hnames : ∀ s ∈ top ++ (A ++ c :: B), Path.IsName s)
    (hclean : ∀ s ∈ A ++ c :: B, Declarable s)
    (hex : P.excludes ⟨false, top ++ A ++ [BuildList.fileName]⟩ = false)
    (hlist : d.readAt (P.absolute ⟨false, top ++ A ++ [BuildList.fileName]⟩) = .ok (.text t))
    (hcount : (declarations t.toList).count c ≤ 1)
    (hrun : ((registerChain P ⟨false, top ++ (A ++ c :: B)⟩ ⟨false, top⟩).run d).value = .ok ()) :
    (∀ d', Later P ((registerChain P ⟨false, top ++ (A ++ c :: B)⟩ ⟨false, top⟩).run d).disk d' →
      ∃ t', d'.readAt (P.absolute ⟨false, top ++ A ++ [BuildList.fileName]⟩) = .ok (.text t') ∧
        (declarations t'.toList).count c = 1) ↔
      (Shows t.toList c ↔ c ∈ declarations t.toList) := by
  have hc : Declarable c := hclean c (by simp)
  obtain ⟨F, hF, hfile⟩ := Disk.readAt_eq_ok_iff.mp hlist
  have hstart : Climbing P F top A c (settled c t) (A ++ c :: B) d :=
    ⟨t, ⟨hd, hroot, hF, hfile⟩, rfl, fun hlen => by
      rw [List.length_append, List.length_cons] at hlen
      omega⟩
  have hends := declareUpTo_ends (I := Climbing P F top A c (settled c t)) hnames
    (fun K s d₁ hK h₁ => h₁.step hK hnames hclean hex) hstart
  rw [← registerChain_names P hnames] at hends
  obtain ⟨t₁, ht₁, hn, hshows⟩ := hends.of_run_ok hrun
  have hshows := hshows (Nat.zero_le _)
  rw [← settled_eq_one_iff hcount, ← hn]
  constructor
  · intro hall
    obtain ⟨t', ht', hone⟩ := hall _ .start
    rw [ht₁.readAt] at ht'
    cases ht'
    rw [settled_of_shows hshows, hone]
  · intro hone d' hl
    obtain ⟨t', ht', hn', hshows'⟩ := HeldOnce.later hc ⟨t₁, ht₁, hone, hshows⟩ hl
    exact ⟨t', ht'.readAt, by rw [← settled_of_shows hshows', hn']⟩

/-- A disk with a build list at the root of the tests, and further files there. -/
def listDisk (text : String) (files : List String) : Disk :=
  ⟨[(["w"], .directory), (["w", "tests"], .directory), (["w", "tests", "ut"], .directory),
    (["w", "tests", "ut", "CMakeLists.txt"], .file (.text text))] ++
    files.map fun f => (["w", "tests", "ut", f], .file (.text ""))⟩

/-- The disk after the directory of a test was registered. -/
def registered (leaf : List String) (d : Disk) : Disk :=
  ((registerChain Project.usual ⟨false, leaf⟩ ⟨false, ["tests", "ut"]⟩).run d).disk

/-- The number of lines that declare a child in the list at the root of the tests. -/
def linesDeclaring (c : String) (d : Disk) : Option Nat :=
  (textAt d ⟨true, ["w", "tests", "ut", "CMakeLists.txt"]⟩).map fun t =>
    (declarations t.toList).count c

/-- A child next to another one is declared once, however often it is registered. -/
theorem sibling_registered_once : ∃ t',
    (registered ["tests", "ut", "fs2"] (registered ["tests", "ut", "fs2"]
      (listDisk "add_subdirectory(fs1)\n" []))).readAt
        ⟨true, ["w", "tests", "ut", "CMakeLists.txt"]⟩ = .ok (.text t') ∧
      (declarations t'.toList).count "fs2" = 1 := by
  have hlist : (listDisk "add_subdirectory(fs1)\n" []).readAt (Project.usual.absolute
      ⟨false, ["tests", "ut"] ++ [] ++ [BuildList.fileName]⟩) =
        .ok (.text "add_subdirectory(fs1)\n") :=
    Disk.readAt_eq_ok_iff.mpr ⟨["w", "tests", "ut", "CMakeLists.txt"], by rfl, by rfl⟩
  have hrun : ((registerChain Project.usual ⟨false, ["tests", "ut"] ++ ([] ++ "fs2" :: [])⟩
      ⟨false, ["tests", "ut"]⟩).run (listDisk "add_subdirectory(fs1)\n" [])).value = .ok () :=
    Job.ok_of_isOk (by decide +kernel)
  refine (registered_once_iff (by decide +kernel) (by rfl) (by decide) (by decide) rfl hlist
    (by decide) hrun).mpr (by decide) _ (.call (.register ["tests", "ut", "fs2"] ["tests", "ut"])
      .start ⟨by decide, by decide, by decide⟩)

/-- The list that is written for a file whose name breaks its line. -/
def brokenList : BuildList where
  testName := "tests_ut"
  unitTests := ["a\nadd_subdirectory(fs2)\nb.cpp"]
  sources := []
  includeDirs := [⟨false, ["src"]⟩]
  subdirectories := ["fs2"]

/-- Not every list ends up with one line: a comment hides a missing declaration,
blanks hide one that is there, and a step up or the name of a file undoes one. -/
theorem registered_otherwise :
    linesDeclaring "fs2" (registered ["tests", "ut", "fs2"]
        (listDisk "# add_subdirectory(fs2)\n" [])) = some 0 ∧
      linesDeclaring "fs2" (listDisk "add_subdirectory( fs2 )\n" []) = some 1 ∧
      linesDeclaring "fs2" (registered ["tests", "ut", "fs2"]
        (listDisk "add_subdirectory( fs2 )\n" [])) = some 2 ∧
      linesDeclaring "fs2" (registered ["tests", "ut", "fs3", "..", "fs4"]
        (registered ["tests", "ut", "fs2"] (listDisk "" []))) = some 0 ∧
      linesDeclaring "fs2" ((writeLeaf Project.usual ⟨false, ["tests", "ut"]⟩ ⟨false, ["src"]⟩).run
        (registered ["tests", "ut", "fs2"]
          (listDisk "" ["a\nadd_subdirectory(fs2)\nb.cpp"]))).disk = some 2 := by
  refine ⟨?_, ?_, ?_, ?_, ?_⟩
  · decide +kernel
  · decide +kernel
  · decide +kernel
  · decide +kernel
  · have hwritten : textAt ((writeLeaf Project.usual ⟨false, ["tests", "ut"]⟩ ⟨false, ["src"]⟩).run
        (registered ["tests", "ut", "fs2"]
          (listDisk "" ["a\nadd_subdirectory(fs2)\nb.cpp"]))).disk
        ⟨true, ["w", "tests", "ut", "CMakeLists.txt"]⟩ = some brokenList.text := by
      decide +kernel
    have hlines : (declarations brokenList.text.toList).count "fs2" = 2 := by
      unfold BuildList.text
      rw [Text.toList_unlines]
      decide +kernel
    unfold linesDeclaring
    rw [hwritten, Option.map_some, hlines]

end Scaffold.BuildTree
