import Scaffold.Proofs.BuildList.Declarations
import Scaffold.Proofs.BuildTree.Plans
import Scaffold.Proofs.Disk.Making

/-!
# One list at a time

For paths of names below the root of a project: every job on build lists changes
one list and no other file.

* `Relisted` -- the list of a directory has a text where it had another one or
  none;
* `Declares` -- how the text of a list comes to declare a child;
* `declare_relisted`, `writeLeaf_relisted` -- **declaring a child and writing a
  list do nothing else**;
* `declareUpTo_ends` -- a chain goes up step by step.
-/
namespace Scaffold

open Artifact (BuildList)

/-- The root of the project is there. -/
def Project.Placed (P : Project) (d : Disk) : Prop :=
  d.kindAt true (P.absolute Path.empty) = some .directory

/-! ## 1. Files below the root -/

namespace Disk

variable {P : Project} {d d' d₁ : Disk} {L : List String} {name : String}

theorem Placed_grows (h : P.Placed d) (hg : d.Grows d') : P.Placed d' := kindAt_grows hg h

/-- The path of a name in a directory, from the root of the disk. -/
theorem absolute_in (P : Project) (L : List String) (name : String) :
    P.absolute ⟨false, L ++ [name]⟩ =
      ⟨P.root.rooted, Path.openEnd P.root.segments ++ L ++ [name]⟩ := by
  change (⟨P.root.rooted, Path.openEnd P.root.segments ++ (L ++ [name])⟩ : Path) = _
  rw [List.append_assoc]

/-- The root, as a path to a directory. -/
theorem placed_iff : P.Placed d ↔
    d.kindAt true ⟨P.root.rooted, Path.openEnd P.root.segments⟩ = some .directory := by
  have hroot : P.absolute Path.empty = ⟨P.root.rooted, Path.openEnd P.root.segments⟩ :=
    congrArg (Path.mk P.root.rooted) (List.append_nil _)
  unfold Project.Placed
  rw [hroot]

/-- The directories that were made for a file. -/
theorem Prepared.made (hd : d.Grounded) (hroot : P.Placed d) (hL : ∀ s ∈ L, Path.IsName s)
    (hname : Path.IsName name) (h : d.Prepared (P.absolute ⟨false, L ++ [name]⟩) d₁) :
    d₁ = d ∨ ∃ k, d.Made (Path.openEnd P.root.segments) L d₁ k := by
  rcases h with rfl | ⟨parent, hparent, htext, hmake⟩
  · exact .inl rfl
  · rw [absolute_in] at hparent
    exact made_above hd (placed_iff.mp hroot) hL hname hparent htext hmake

/-- A file that is written behind directories that were made for it. -/
theorem Prepared.wrote (hd : d.Grounded) (hroot : P.Placed d) (hL : ∀ s ∈ L, Path.IsName s)
    (hname : Path.IsName name) {content : Option Content → Content}
    (h : d.Prepared (P.absolute ⟨false, L ++ [name]⟩) d₁)
    (hd' : d₁.changeAt (P.absolute ⟨false, L ++ [name]⟩) content = .ok d') :
    ∃ G, d.Wrote P.root.rooted (Path.openEnd P.root.segments) L name content d' G := by
  have hmade := h.made hd hroot hL hname
  rw [absolute_in] at hd'
  exact wrote_of_changeAt hmade h.extends hname hd'

/-- What else is new lies on the path of the project. -/
theorem Wrote.others_located {content : Option Content → Content} {G : Location}
    (hL : ∀ s ∈ L, Path.IsName s)
    (h : d.Wrote P.root.rooted (Path.openEnd P.root.segments) L name content d' G) :
    ∀ l, l ≠ G → d'.find? l = d.find? l ∨
      (d.find? l = none ∧ d'.find? l = some .directory ∧ ∃ A B, A ≠ [] ∧ L = A ++ B ∧
        d'.locate true (P.absolute ⟨false, A⟩) = .ok l) := by
  intro l hl
  rcases h.others l hl with hsame | ⟨hnone, hdir, A, B, hA, hLA, hway⟩
  · exact .inl hsame
  · refine .inr ⟨hnone, hdir, A, B, hA, hLA, ?_⟩
    obtain ⟨s, hs⟩ := List.exists_mem_of_ne_nil A hA
    rw [locate_eq_ok_iff, resolve_eq_ok_iff]
    refine ⟨Path.text_ne_empty (s := s) (List.mem_append_right _ hs) ?_, hway⟩
    exact (hL s (hLA ▸ List.mem_append_left _ hs)).1

end Disk

namespace BuildTree

variable {P : Project} {d d' : Disk} {L : List String} {child : String}

/-! ## 2. Lists -/

/-- The list of a directory has a text where it had another one or none, and no
other file changed. What else is new are directories above it. -/
structure Relisted (P : Project) (L : List String) (d d' : Disk) (G : Location)
    (old : Option String) (new : String) : Prop where
  located : d'.locate true (P.absolute ⟨false, L ++ [BuildList.fileName]⟩) = .ok G
  before : d.find? G = old.map fun t => .file (.text t)
  after : d'.find? G = some (.file (.text new))
  others : ∀ l, l ≠ G → d'.find? l = d.find? l ∨
    (d.find? l = none ∧ d'.find? l = some .directory ∧ ∃ A B, A ≠ [] ∧ L = A ++ B ∧
      d'.locate true (P.absolute ⟨false, A⟩) = .ok l)

theorem Relisted.file_iff {G F : Location} {old : Option String} {new : String}
    (h : Relisted P L d d' G old new) (hF : F ≠ G) (c : Content) :
    d'.find? F = some (.file c) ↔ d.find? F = some (.file c) := by
  rcases h.others F hF with h | ⟨h, h', _⟩
  · rw [h]
  · simp [h, h']

theorem fileName_isName : Path.IsName BuildList.fileName := by decide

theorem relisted_of_wrote {content : Option Content → Content} {G : Location} (new : String)
    (hL : ∀ s ∈ L, Path.IsName s)
    (h : d.Wrote P.root.rooted (Path.openEnd P.root.segments) L BuildList.fileName content d' G)
    (hread : (∃ t, d.readAt (P.absolute ⟨false, L ++ [BuildList.fileName]⟩) = .ok (.text t)) ∨
      d.readAt (P.absolute ⟨false, L ++ [BuildList.fileName]⟩) = .error .notFound)
    (hnew : content ((textAt d (P.absolute ⟨false, L ++ [BuildList.fileName]⟩)).map .text) =
      .text new) :
    Relisted P L d d' G (textAt d (P.absolute ⟨false, L ++ [BuildList.fileName]⟩)) new := by
  have hlocated := h.located
  have hholds := h.holds
  have hbefore := h.before
  rw [← Disk.absolute_in] at hlocated hholds hbefore
  have hold : (d.readAt (P.absolute ⟨false, L ++ [BuildList.fileName]⟩)).toOption =
      (textAt d (P.absolute ⟨false, L ++ [BuildList.fileName]⟩)).map .text := by
    unfold textAt
    rcases hread with ⟨t, ht⟩ | ht
    · rw [ht]
      rfl
    · rw [ht]
      rfl
  rw [hold] at hholds hbefore
  refine ⟨hlocated, ?_, ?_, fun l hl => ?_⟩
  · rw [hbefore, Option.map_map]
    rfl
  · rw [hholds, hnew]
  · exact h.others_located hL l hl

/-- How the text of a list, if there is one, goes over into one that declares a
child. -/
inductive Declares (child : String) : Option String → String → Prop
  | shown (t : String) (h : BuildList.Shows t.toList child) : Declares child (some t) t
  | appended (t : String) (h : ¬BuildList.Shows t.toList child) :
      Declares child (some t) (BuildList.extended t child)
  | started : Declares child none (BuildList.started child)

/-- A list shows what was declared in it. -/
theorem Declares.shows {c new : String} {old : Option String} (h : Declares c old new)
    (hc : '\n' ∉ c.toList) : BuildList.Shows new.toList c := by
  cases h with
  | shown _ hshows => exact hshows
  | appended t _ => exact (BuildList.shows_extended hc t).mpr (.inr List.infix_rfl)
  | started =>
    unfold BuildList.started
    exact BuildList.shows_of_mem_lines (by simp)

theorem list_eq (hL : ∀ s ∈ L, Path.IsName s) :
    (⟨false, L⟩ : Path).child BuildList.fileName = ⟨false, L ++ [BuildList.fileName]⟩ :=
  Path.Neat.child (fun s hs => (hL s hs).not_idle) BuildList.fileName

/-- **Declaring a child changes the text of one list.** -/
theorem Declared.relisted (hd : d.Grounded) (hroot : P.Placed d) (hL : ∀ s ∈ L, Path.IsName s)
    (h : Declared P ⟨false, L⟩ child d d') :
    ∃ G old new, Relisted P L d d' G old new ∧ Declares child old new := by
  cases h with
  | shown t h hin hd' =>
    subst hd'
    rw [list_eq hL] at h
    obtain ⟨G, hG, hfile⟩ := Disk.readAt_eq_ok_iff.mp h
    exact ⟨G, some t, t, ⟨hG, hfile, hfile, fun _ _ => .inl rfl⟩,
      .shown t (BuildList.occursIn_iff.mp hin)⟩
  | appended t h hin hd' =>
    rw [list_eq hL] at h hd'
    have hold : textAt d (P.absolute ⟨false, L ++ [BuildList.fileName]⟩) = some t := by
      unfold textAt
      rw [h]
    obtain ⟨G, hG⟩ := Disk.Prepared.wrote hd hroot hL fileName_isName (.inl rfl) hd'
    have hrelisted := relisted_of_wrote (BuildList.extended t child) hL hG (.inl ⟨t, h⟩)
      (by rw [hold]; rfl)
    rw [hold] at hrelisted
    refine ⟨G, _, _, hrelisted, .appended t fun hs => ?_⟩
    rw [BuildList.occursIn_iff.mpr hs] at hin
    cases hin
  | started d₁ h hd₁ hd' =>
    rw [list_eq hL] at h hd'
    have hold : textAt d (P.absolute ⟨false, L ++ [BuildList.fileName]⟩) = none := by
      unfold textAt
      rw [h]
    have hmade : d₁ = d ∨ ∃ k, d.Made (Path.openEnd P.root.segments) L d₁ k :=
      Disk.made_below hd (Disk.placed_iff.mp hroot) hL hd₁
    have hext := d.makeDirs_extends (P.absolute ⟨false, L⟩)
    rw [hd₁] at hext
    rw [Disk.absolute_in] at hd'
    obtain ⟨G, hG⟩ := Disk.wrote_of_changeAt hmade hext fileName_isName hd'
    have hrelisted := relisted_of_wrote (BuildList.started child) hL hG (.inr h) rfl
    rw [hold] at hrelisted
    exact ⟨G, _, _, hrelisted, .started⟩

/-- The same for the job, where the list is not excluded. -/
theorem declare_relisted (hd : d.Grounded) (hroot : P.Placed d) (hL : ∀ s ∈ L, Path.IsName s) :
    (declare P ⟨false, L⟩ child).Ends
      (fun _ d' =>
        (P.excludes ⟨false, L ++ [BuildList.fileName]⟩ = true ∧ d' = d) ∨
          ∃ G old new, Relisted P L d d' G old new ∧ Declares child old new)
      (fun e d' => e.isUserError = false ∧ d.Extends d') d := by
  refine (declare_ends P ⟨false, L⟩ child d).mono (fun _ d' h => ?_) fun _ _ h => h
  rw [list_eq hL] at h
  rcases h with h | h
  · exact .inl h
  · exact .inr (h.relisted hd hroot hL)

/-- **Writing a list changes the text of that list only**, and keeps what the old
one declared. -/
theorem writeLeaf_relisted (P : Project) (sourceDir : Path) (hd : d.Grounded)
    (hroot : P.Placed d) (hL : ∀ s ∈ L, Path.IsName s) :
    (writeLeaf P ⟨false, L⟩ sourceDir).Ends
      (fun _ d' =>
        (P.excludes ⟨false, L ++ [BuildList.fileName]⟩ = true ∧ d' = d) ∨
          ∃ G old, Relisted P L d d' G old (planned P d ⟨false, L⟩ sourceDir).text ∧
            (planned P d ⟨false, L⟩ sourceDir).subdirectories =
              (old.map BuildList.declaredSubdirectories).getD [])
      (fun e d' => e.isUserError = false ∧ d.Extends d') d := by
  refine (writeLeaf_ends P ⟨false, L⟩ sourceDir).mono (fun _ d' h => ?_) fun _ _ h => h
  rw [list_eq hL] at h
  rcases h with h | ⟨hread, d₁, hd₁, hd'⟩
  · exact .inl h
  · obtain ⟨G, hG⟩ := hd₁.wrote hd hroot hL fileName_isName hd'
    refine .inr ⟨G, _, relisted_of_wrote _ hL hG hread rfl, ?_⟩
    change subdirectoriesAt d (P.absolute ((⟨false, L⟩ : Path).child BuildList.fileName)) = _
    rw [list_eq hL]
    rfl

/-! ## 3. Chains -/

variable {top M : List String}

theorem declareUpTo_top (P : Project) (top : Path) : declareUpTo P top top = pure () := by
  rw [declareUpTo, if_pos (by simp [Path.same])]

theorem declareUpTo_concat (P : Project) {s : String}
    (h : ∀ t ∈ top ++ (M ++ [s]), Path.IsName t) :
    declareUpTo P ⟨false, top⟩ ⟨false, top ++ (M ++ [s])⟩ =
      (declare P ⟨false, top ++ M⟩ s).bind fun _ =>
        declareUpTo P ⟨false, top⟩ ⟨false, top ++ M⟩ := by
  have htop : ∀ t ∈ top, Path.IsName t := fun t ht => h t (List.mem_append_left _ ht)
  have hneat : (⟨false, (top ++ M) ++ [s]⟩ : Path).Neat := by
    intro t ht
    rw [List.append_assoc] at ht
    exact (h t ht).not_idle
  have hparent : (⟨false, top ++ (M ++ [s])⟩ : Path).parent? = some ⟨false, top ++ M⟩ := by
    rw [← List.append_assoc]
    exact hneat.parent?
  have hchild : (⟨false, top ++ (M ++ [s])⟩ : Path).fileName? = some s := by
    rw [← List.append_assoc]
    exact hneat.fileName? (h s (by simp)).2.2
  have hother : ¬(⟨false, top ++ (M ++ [s])⟩ : Path).same ⟨false, top⟩ = true := by
    rw [Path.same_names h htop]
    simp
  rw [declareUpTo, if_neg hother]
  split
  · rename_i parent child hp hc
    rw [hparent] at hp
    rw [hchild] at hc
    cases hp
    cases hc
    rfl
  · rename_i hnone
    exact absurd hchild (hnone _ _ hparent)

/-- **A chain goes up step by step**: what each declaration takes to the next
directory above, the chain takes to the top. -/
theorem declareUpTo_ends {I : List String → Disk → Prop} {bad : Failure → Disk → Prop}
    (hM : ∀ t ∈ top ++ M, Path.IsName t)
    (hstep : ∀ A s d, A ++ [s] <+: M → I (A ++ [s]) d →
      (declare P ⟨false, top ++ A⟩ s).Ends (fun _ => I A) bad d) (hd : I M d) :
    (declareUpTo P ⟨false, top⟩ ⟨false, top ++ M⟩).Ends (fun _ => I []) bad d := by
  induction M using List.reverseRecOn generalizing d with
  | nil =>
    rw [List.append_nil, declareUpTo_top]
    exact hd
  | append_singleton A s ih =>
    rw [declareUpTo_concat P hM, Job.ends_bind]
    refine (hstep A s d (List.prefix_refl _) hd).mono (fun _ d' hd' => ?_) fun _ _ h => h
    refine ih (fun t ht => hM t ?_) (fun B t d₁ hB => hstep B t d₁ ?_) hd'
    · rw [← List.append_assoc]
      exact List.mem_append_left _ ht
    · exact hB.trans (List.prefix_append A [s])

theorem registerChain_names (P : Project) (hM : ∀ t ∈ top ++ M, Path.IsName t) :
    registerChain P ⟨false, top ++ M⟩ ⟨false, top⟩ =
      declareUpTo P ⟨false, top⟩ ⟨false, top ++ M⟩ := by
  unfold registerChain
  rw [if_pos]
  rw [Path.startsWith_names hM fun t ht => hM t (List.mem_append_left _ ht)]
  exact List.prefix_append top M

end BuildTree

end Scaffold
