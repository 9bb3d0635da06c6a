import Scaffold.Proofs.Project.Lasting

/-!
# Spellings of one place

A path may go through dots, slashes and links to what it leads to. Its canonical path has
none of them, so that paths that lead to the same place are the same path of a project.

* `Disk.Stairs.descent` -- what lies below a canonical location is **reached by its names
  alone**;
* `relative_located` -- **the path in the project of whatever leads below its root**: the
  names behind the root's location, however it is spelled;
* `absolute_located` -- and that path leads there again.
-/
namespace Scaffold

open Scaffold.Path (IsName)

variable {d : Disk} {P : Project} {p : Path} {R L : Location} {l : Location} {s : String}

/-! ## 1. Texts -/

theorem Path.text_rooted_ne (h : p.rooted = true) : p.text ≠ "" := by
  intro htext
  have hchars := congrArg String.toList htext
  rw [Path.text, if_pos h, String.toList_append] at hchars
  cases hchars

/-- A path with steps has a text, also without the slash at its end. -/
theorem Path.text_openEnd_ne (h : p.components ≠ []) :
    (⟨p.rooted, Path.openEnd p.segments⟩ : Path).text ≠ "" := by
  by_cases hr : p.rooted = true
  · exact Path.text_rooted_ne hr
  -- a segment that makes a step is not the empty one, which alone is left out
  have hkept : ∀ t ∈ p.segments, t ≠ "" → t ∈ Path.openEnd p.segments := by
    intro t ht hne
    unfold Path.openEnd
    split
    · rename_i hlast
      obtain ⟨M, hM⟩ := List.getLast?_eq_some_iff.mp (eq_of_beq hlast)
      rw [hM] at ht ⊢
      rw [List.dropLast_concat]
      exact (List.mem_append.mp ht).resolve_right fun h => hne (List.mem_singleton.mp h)
    · exact ht
  obtain ⟨t, ht, hne⟩ : ∃ t ∈ p.segments, t ≠ "" := by
    rw [Path.components_eq_names, if_neg hr] at h
    by_cases hhere : p.beginsHere = true
    · unfold Path.beginsHere at hhere
      rw [Bool.and_eq_true, beq_iff_eq] at hhere
      exact ⟨".", List.mem_of_head? hhere.2, by decide⟩
    · rw [if_neg hhere, List.nil_append] at h
      obtain ⟨t, ht⟩ := List.exists_mem_of_ne_nil _ (mt List.map_eq_nil_iff.mpr h)
      have hidle := Path.mem_names ht
      exact ⟨t, hidle.2, by rintro rfl; cases hidle.1⟩
  exact Path.text_ne_empty (hkept t ht hne) hne

/-! ## 2. Canonical locations -/

namespace Disk

theorem Stairs.concat_inv (h : Stairs d (l ++ [s])) : Stairs d l ∧
    d.find? l = some .directory ∧ IsName s ∧ ∃ e, d.find? (l ++ [s]) = some e ∧ ∀ t, e ≠ .link t := by
  generalize hk : l ++ [s] = k at h
  cases h with
  | root => simp at hk
  | down h hl hs he hlink =>
    obtain ⟨rfl, rfl⟩ := List.append_singleton_inj.mp hk
    exact ⟨h, hl, hs, _, he, hlink⟩

/-- **Below a canonical location** there are names only, and the way down follows no link. -/
theorem Stairs.descent : ∀ {L : Location}, Stairs d (R ++ L) →
    Stairs d R ∧ (∀ s ∈ L, IsName s) ∧ ∀ {n : Nat} {segments : List String} {p : Place},
      Way d true n (R ++ L) segments p → Way d true n R (L ++ segments) p := by
  intro L
  induction L using List.reverseRecOn with
  | nil =>
    intro h
    rw [List.append_nil] at h ⊢
    exact ⟨h, fun _ hs => absurd hs List.not_mem_nil, fun hway => hway⟩
  | append_singleton L s ih =>
    intro h
    rw [← List.append_assoc] at h ⊢
    obtain ⟨hbefore, hdir, hs, e, he, hlink⟩ := h.concat_inv
    obtain ⟨hR, hL, hway⟩ := ih hbefore
    refine ⟨hR, List.forall_mem_append.mpr ⟨hL, by simpa using hs⟩, fun h => ?_⟩
    rw [List.append_assoc]
    exact hway (.down hdir hs he hlink h)

/-- What a path leads to has a canonical location. -/
theorem stairs_of_locate (h : d.locate true p = .ok l) : Stairs d l :=
  (resolve_eq_ok_iff.mp (locate_eq_ok_iff.mp h)).2.stairs .root

/-- A canonical path leads to its location. -/
theorem locate_pathOf (h : Stairs d l) : d.locate true (pathOf l) = .ok l := by
  rw [locate_eq_ok_iff, resolve_eq_ok_iff]
  refine ⟨Path.text_rooted_ne rfl, ?_⟩
  have hhere : Way d true mostLinks l [] (.found l) := .here mostLinks l
  have hway := h.way hhere
  rwa [List.append_nil] at hway

theorem canonicalAt_of_locate (h : d.locate true p = .ok l) : d.canonicalAt p = pathOf l := by
  unfold canonicalAt
  rw [h]

/-- A canonical path is made of names. -/
theorem names_pathOf (h : Stairs d l) : (pathOf l).names = l := by
  have hl := (Stairs.descent (R := []) (L := l) h).2.1
  exact List.filter_eq_self.mpr fun s hs => by simp [(hl s hs).not_idle]

end Disk

/-! ## 3. Paths of a project -/

/-- What follows a canonical path that another one begins with. -/
theorem stepsBelow_pathOf (h : Disk.Stairs d (R ++ L)) :
    (Disk.pathOf (R ++ L)).stepsBelow? (Disk.pathOf R) = some (L.map .name) := by
  obtain ⟨hR, hL, -⟩ := h.descent
  have hroot : (Disk.pathOf R).components = .root :: R.map Path.stepOf := by
    rw [Path.components_eq_names, Disk.names_pathOf hR]
    rfl
  have hsteps : (Disk.pathOf (R ++ L)).components =
      (Disk.pathOf R).components ++ L.map .name := by
    rw [hroot, Path.components_eq_names, Disk.names_pathOf h, List.map_append,
      List.map_congr_left fun s hs => (Path.stepOf_name (hL s hs)).symm]
    rfl
  unfold Path.stepsBelow? Path.startsWith
  rw [hsteps, if_pos (List.isPrefixOf_iff_prefix.mpr (List.prefix_append _ _)), List.drop_left]

/-- **The path in the project of what lies below its root**, however it is spelled: the names
that follow the root. -/
theorem relative_located (hroot : d.locate true P.root = .ok R) (hp : p.rooted = true)
    (h : d.locate true p = .ok (R ++ L)) : ((P.relative p).run d).value = .ok ⟨false, L⟩ := by
  have hstairs := Disk.stairs_of_locate h
  have hL := hstairs.descent.2.1
  rw [relative_rooted P d hp, Disk.canonicalAt_of_locate h, Disk.canonicalAt_of_locate hroot,
    stepsBelow_pathOf hstairs, Option.some_or]
  rw [List.map_congr_left fun s hs => (Path.stepOf_name (hL s hs)).symm]
  exact congrArg Except.ok (Path.plain_stepOf fun s hs => (hL s hs).not_idle)

/-- **A path of names leads below the root of the project** to what it names. -/
theorem absolute_located (hsteps : P.root.components ≠ []) (hroot : d.locate true P.root = .ok R)
    (hdir : d.find? R = some .directory) (h : Disk.Stairs d (R ++ L)) :
    d.locate true (P.absolute ⟨false, L⟩) = .ok (R ++ L) := by
  obtain ⟨-, hway⟩ := Disk.resolve_eq_ok_iff.mp (Disk.locate_eq_ok_iff.mp hroot)
  have hopen : Disk.Way d true Disk.mostLinks [] (Path.openEnd P.root.segments) (.found R) :=
    hway.respaced P.root.names_openEnd (.inr hdir)
  obtain ⟨-, hL, hdown⟩ := h.descent
  rw [Disk.locate_eq_ok_iff, Disk.resolve_eq_ok_iff, absolute_unrooted P rfl]
  by_cases hne : L = []
  · subst hne
    rw [List.append_nil, List.append_nil]
    exact ⟨Path.text_openEnd_ne hsteps, hopen⟩
  · refine ⟨?_, ?_⟩
    · have htext := Path.absolute_text P (p := ⟨false, L⟩) (fun s hs => (hL s hs).not_idle) hne
      rwa [absolute_unrooted P rfl] at htext
    · -- what the root's links leave of the allowance is enough, for the rest follows none
      obtain ⟨n, -, happend⟩ := hopen.append
      have hrest := hdown (.here n (R ++ L))
      rw [List.append_nil, ← Disk.resolveFrom_eq_ok_iff] at hrest
      rw [← Disk.resolveFrom_eq_ok_iff, happend true L hne]
      exact hrest

end Scaffold
