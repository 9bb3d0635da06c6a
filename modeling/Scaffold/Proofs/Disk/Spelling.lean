import Mathlib.Data.List.Induction
import Scaffold.Proofs.Disk.Changes

/-!
# Spellings of one path

A path can be spelled with more slashes and dots, and with the canonical names of
what it leads to.

* `Way.respaced` -- **slashes and dots between the names do not count**, but only a
  directory has any behind it;
* `Stairs` -- locations that lead to themselves; `Way.stairs`: **every path leads to
  such a one**, and `Stairs.way` goes there without a link;
* `locate_before` -- where a path leads on a disk that has grown it led before, if
  another spelling of it led to a file.
-/
namespace Scaffold.Disk

variable {d d' : Disk} {follows : Bool} {n m : Nat} {l k : Location} {segments : List String}
  {p : Place}

/-! ## 1. Slashes and dots -/

theorem Way.more_links (h : Way d follows n l segments p) (hm : n ≤ m) :
    Way d follows m l segments p := by
  induction h generalizing m with
  | here n l => exact .here m l
  | idle hl hs _ ih => exact .idle hl hs (ih hm)
  | up hl _ ih => exact .up hl (ih hm)
  | down hl hs he hlink _ ih => exact .down hl hs he hlink (ih hm)
  | stop hl hs he hf => exact .stop hl hs he hf
  | follow hl hs he hf _ ih =>
    obtain ⟨m, rfl⟩ := Nat.exists_eq_succ_of_ne_zero (Nat.ne_zero_of_lt hm)
    exact .follow hl hs he hf (ih (Nat.le_of_succ_le_succ hm))
  | gap hl hs he => exact .gap hl hs he
  | gapSlash hl hs he hne hrest => exact .gapSlash hl hs he hne hrest

/-- What is behind the last name of a path. -/
theorem split_end (segments : List String) : ∃ short dots, segments = short ++ dots ∧
    (∀ s ∈ dots, Path.idle s = true) ∧ ∀ s ∈ short.getLast?, Path.idle s = false := by
  induction segments using List.reverseRecOn with
  | nil => exact ⟨[], [], rfl, by simp, by simp⟩
  | append_singleton L s ih =>
    by_cases hs : Path.idle s = true
    · obtain ⟨short, dots, rfl, hdots, hlast⟩ := ih
      refine ⟨short, dots ++ [s], by rw [List.append_assoc], fun t ht => ?_, hlast⟩
      rcases List.mem_append.mp ht with ht | ht
      · exact hdots t ht
      · exact List.mem_singleton.mp ht ▸ hs
    · exact ⟨L ++ [s], [], by simp, by simp, by simpa using hs⟩

/-- Segments that are no steps can stand before a path from a directory. -/
theorem Way.after_idle {dots : List String} (h : Way d follows n l segments p)
    (hl : d.find? l = some .directory) (hdots : ∀ s ∈ dots, Path.idle s = true) :
    Way d follows n l (dots ++ segments) p := by
  induction dots with
  | nil => exact h
  | cons s dots ih =>
    exact .idle hl (hdots s List.mem_cons_self) (ih fun t ht => hdots t (List.mem_cons_of_mem s ht))

/-- **Slashes and dots between the names do not count.** Behind the last name there may be
some if the path leads to a directory. -/
theorem Way.respaced (h : Way d true n l segments (.found k)) {segments' : List String}
    (hsame : segments'.filter (fun s => !Path.idle s) = segments.filter fun s => !Path.idle s)
    (hend : (∀ s ∈ segments'.getLast?, Path.idle s = false) ∨ d.find? k = some .directory) :
    Way d true n l segments' (.found k) := by
  -- the end of what follows a step is the end of the whole
  have hbehind : ∀ {dots rest' : List String} {s : String}, ((∀ t ∈ (dots ++ s :: rest').getLast?,
      Path.idle t = false) ∨ d.find? k = some .directory) →
      (∀ t ∈ rest'.getLast?, Path.idle t = false) ∨ d.find? k = some .directory := by
    intro dots rest' s hend
    refine hend.imp_left fun hend t ht => hend t ?_
    rw [List.getLast?_append, List.getLast?_cons, Option.mem_def.mp ht]
    rfl
  generalize hp : Place.found k = p at h
  induction h generalizing segments' with
  | here n l =>
    cases hp
    rcases segments'.eq_nil_or_concat with rfl | ⟨dots, s, rfl⟩
    · exact .here n k
    · rw [List.concat_eq_append] at hsame hend ⊢
      have hdots : ∀ t ∈ dots ++ [s], Path.idle t = true := by
        intro t ht
        simpa using List.filter_eq_nil_iff.mp hsame t ht
      have hk := hend.resolve_left fun hend => by
        have hs := hend s (by simp)
        rw [hdots s (by simp)] at hs
        cases hs
      simpa using (Way.here n k).after_idle hk hdots
  | idle hl hs _ ih =>
    rw [List.filter_cons_of_neg (by simp [hs])] at hsame
    exact ih hsame hend hp
  | up hl _ ih =>
    rw [List.filter_cons_of_pos (by decide)] at hsame
    obtain ⟨dots, rest', rfl, hdots, _, hsame⟩ := List.filter_eq_cons_iff.mp hsame
    exact Way.after_idle (.up hl (ih hsame (hbehind hend) hp)) hl (by simpa using hdots)
  | down hl hs he hlink _ ih =>
    rw [List.filter_cons_of_pos (by simp [hs.not_idle])] at hsame
    obtain ⟨dots, rest', rfl, hdots, _, hsame⟩ := List.filter_eq_cons_iff.mp hsame
    exact Way.after_idle (.down hl hs he hlink (ih hsame (hbehind hend) hp)) hl (by simpa using hdots)
  | stop _ _ _ hf => cases hf
  | @follow n l s rest _ t hl hs he _ h ih =>
    subst hp
    rw [List.filter_cons_of_pos (by simp [hs.not_idle])] at hsame
    obtain ⟨dots, rest', rfl, hdots, _, hsame⟩ := List.filter_eq_cons_iff.mp hsame
    refine Way.after_idle (.follow hl hs he (.inr rfl) ?_) hl (by simpa using hdots)
    -- the target of the link may end in a slash, when nothing follows the link
    by_cases hrest' : rest' = []
    · subst hrest'
      rw [List.append_nil]
      have hrest : ∀ s ∈ rest, Path.idle s = true := by simpa using hsame.symm
      exact h.trim hrest
    · refine ih (by rw [List.filter_append, List.filter_append, hsame]) ?_ rfl
      refine (hbehind hend).imp_left fun hend s hs => hend s ?_
      obtain ⟨last, hlast⟩ := Option.isSome_iff_exists.mp (List.getLast?_isSome.mpr hrest')
      rw [List.getLast?_append, hlast] at hs
      exact hlast.trans hs
  | gap => cases hp
  | gapSlash => cases hp

/-! ## 2. Canonical locations -/

/-- The location leads to itself: from directory to directory down to it, and there is
no link on the way. -/
inductive Stairs (d : Disk) : Location → Prop
  | root : Stairs d []
  | down {l : Location} {s : String} {e : Entry} (h : Stairs d l)
      (hl : d.find? l = some .directory) (hs : Path.IsName s) (he : d.find? (l ++ [s]) = some e)
      (hlink : ∀ t, e ≠ .link t) : Stairs d (l ++ [s])

theorem Stairs.dropLast (h : Stairs d l) : Stairs d l.dropLast := by
  cases h with
  | root => exact .root
  | down h => rwa [List.dropLast_concat]

/-- The way from such a location can begin at the root. -/
theorem Stairs.way (h : Stairs d l) (hway : Way d follows n l segments p) :
    Way d follows n [] (l ++ segments) p := by
  induction h generalizing segments with
  | root => exact hway
  | down _ hl hs he hlink ih =>
    rw [List.append_assoc]
    exact ih (.down hl hs he hlink hway)

/-- **What a path leads to has a canonical location.** -/
theorem Way.stairs (h : Way d true n l segments (.found k)) (hl : Stairs d l) : Stairs d k := by
  generalize hp : Place.found k = p at h
  induction h with
  | here n l => cases hp; exact hl
  | idle _ _ _ ih => exact ih hl hp
  | up _ _ ih => exact ih hl.dropLast hp
  | down hdir hs he hlink _ ih => exact ih (hl.down hdir hs he hlink) hp
  | stop _ _ _ hf => cases hf
  | follow _ _ _ _ _ ih =>
    refine ih ?_ hp
    split
    · exact .root
    · exact hl
  | gap => cases hp
  | gapSlash => cases hp

/-! ## 3. Disks that grow -/

/-- **Where a path leads it led before**, if another spelling of it led to a file. -/
theorem locate_before {q : Path} {c : Content} (hg : d.Grows d')
    (hway : Way d true mostLinks [] segments (.found k)) (hk : d.find? k = some (.file c))
    (hsame : q.segments.filter (fun s => !Path.idle s) = segments.filter fun s => !Path.idle s)
    (hq : d'.locate true q = .ok l) : d.locate true q = .ok l := by
  rw [locate_eq_ok_iff, resolve_eq_ok_iff] at hq ⊢
  -- without what is behind its last name, the path leads to the file on both disks
  obtain ⟨short, dots, hsegments, hdots, hlast⟩ := split_end q.segments
  have hshorter : short.filter (fun s => !Path.idle s) =
      segments.filter fun s => !Path.idle s := by
    have hnone : dots.filter (fun s => !Path.idle s) = [] :=
      List.filter_eq_nil_iff.mpr fun s hs => by simp [hdots s hs]
    rw [← hsame, hsegments, List.filter_append, hnone, List.append_nil]
  have hbefore := hway.respaced hshorter (.inl hlast)
  have hafter := hq.2
  rw [hsegments] at hafter
  have hfound : l = k := by
    have heq := (resolveFrom_eq_ok_iff.mpr (hafter.trim hdots)).symm.trans
      (resolveFrom_eq_ok_iff.mpr (hbefore.found_grows hg))
    cases heq
    rfl
  subst hfound
  -- and behind a file there is no slash
  have hnone : dots = [] := by
    obtain ⟨e, he, hbecomes⟩ := hg l _ hk
    refine Classical.byContradiction fun hne => ?_
    obtain ⟨i, _, happend⟩ := (hbefore.found_grows hg).append
    have hrest := resolveFrom_eq_ok_iff.mpr hafter
    rw [happend true dots hne, resolveFrom_eq_ok_iff] at hrest
    obtain ⟨s, dots, rfl⟩ := List.exists_cons_of_ne_nil hne
    rw [hrest.directory] at he
    cases he
    cases hbecomes.kind_eq
  refine ⟨hq.1, ?_⟩
  rw [hsegments, hnone, List.append_nil]
  exact hbefore

end Scaffold.Disk
