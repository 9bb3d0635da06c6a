import Scaffold.Proofs.Disk.Spelling
import Scaffold.Proofs.Project.Standing

/-!
# Paths of a project that last

What a user writes is looked up on the disk, and the disk grows. Where it is the path of
a file, it stays the same path of the project.

* `Disk.canonicalAt` -- the canonical path on a disk; `relative_rooted`: what a rooted
  path is in a project is read off from two of them;
* `Path.stepsBelow_names` -- what follows the beginning of a rooted path;
* `relative_later` -- **the path of a file in the project stays the same**, whatever the
  disk was grown by.
-/
namespace Scaffold

/-! ## 1. Canonical paths -/

/-- The canonical path on a disk; the path itself when there is nothing there. -/
def Disk.canonicalAt (d : Disk) (p : Path) : Path :=
  match d.locate true p with
  | .ok l => pathOf l
  | .error _ => p

variable {P : Project} {d d' : Disk} {p base input rel : Path}

/-- A canonical path is the same later, if what it stands for was there. -/
theorem Disk.canonicalAt_later (hg : d.Grows d')
    (h : ∀ l, d'.locate true p = .ok l → d.locate true p = .ok l) :
    d'.canonicalAt p = d.canonicalAt p := by
  unfold Disk.canonicalAt
  cases hd : d.locate true p with
  | ok l => rw [Disk.locate_grows hg hd]
  | error e =>
    cases hd' : d'.locate true p with
    | ok l => exact absurd (hd.symm.trans (h l hd')) (by simp)
    | error e' => rfl

/-- What a rooted path is in a project. -/
theorem relative_rooted (P : Project) (d : Disk) (hp : p.rooted = true) :
    ((P.relative p).run d).value =
      match ((d.canonicalAt p).stepsBelow? (d.canonicalAt P.root)).or (p.stepsBelow? P.root) with
      | some steps => .ok (Project.plain steps)
      | none => .error (.outsideSourceTree p P.config.sourceDir) := by
  have hends : ∀ q, ((d.answer (.canonical q)).1.getD q) = d.canonicalAt q := by
    intro q
    change (match d.locate true q with | .ok l => some (Disk.pathOf l) | .error _ => none).getD q = _
    unfold Disk.canonicalAt
    cases d.locate true q <;> rfl
  unfold Project.relative
  rw [if_pos hp]
  change ((match (((d.answer (.canonical p)).1.getD p).stepsBelow?
      ((d.answer (.canonical P.root)).1.getD P.root)).or (p.stepsBelow? P.root) with
    | some steps => pure (Project.plain steps)
    | none => .fail (.outsideSourceTree p P.config.sourceDir) : Job Path).run d).value = _
  rw [hends, hends]
  split <;> rfl

/-! ## 2. What follows the beginning of a path -/

theorem Path.stepOf_injective : Function.Injective Path.stepOf := fun s t h => by
  rw [← Path.text_stepOf s, h, Path.text_stepOf]

/-- What follows the beginning of a rooted path: the names behind it, or the whole path
when the beginning has no steps. -/
theorem Path.stepsBelow_names {steps : List Path.Component} (hp : p.rooted = true)
    (h : p.stepsBelow? base = some steps) :
    (∃ L, Project.plain steps = ⟨false, L⟩ ∧ base.rooted = true ∧ p.names = base.names ++ L) ∨
      (Project.plain steps = ⟨true, p.names⟩ ∧ base.rooted = false ∧ base.names = []) := by
  unfold Path.stepsBelow? at h
  split at h
  · rename_i hstart
    cases h
    unfold Path.startsWith at hstart
    rw [List.isPrefixOf_iff_prefix, p.components_eq_names, base.components_eq_names,
      if_pos hp] at hstart
    rw [p.components_eq_names, base.components_eq_names, if_pos hp]
    split at hstart
    · rename_i hbase
      rw [List.singleton_append, List.singleton_append, List.cons_prefix_cons,
        List.prefix_map_iff_of_injective Path.stepOf_injective] at hstart
      obtain ⟨L, hL⟩ := hstart.2
      refine .inl ⟨L, ?_, hbase, hL.symm⟩
      rw [if_pos hbase, ← hL, List.map_append, ← List.append_assoc, List.drop_left]
      exact Path.plain_stepOf fun s hs => (Path.mem_names (hL ▸ List.mem_append_right _ hs)).1
    · split at hstart
      · exact absurd (List.cons_prefix_cons.mp hstart).1 (by simp)
      · rename_i hbase hhere
        have hnames : base.names = [] := by
          cases hn : base.names with
          | nil => rfl
          | cons s L =>
            rw [hn] at hstart
            have hroot : Path.stepOf s = .root := (List.cons_prefix_cons.mp hstart).1
            have htext := congrArg Path.Component.text hroot
            rw [Path.text_stepOf] at htext
            rw [htext] at hroot
            cases hroot
        refine .inr ⟨?_, by simpa using hbase, hnames⟩
        rw [if_neg hbase, if_neg hhere, hnames]
        exact Path.plain_root fun s hs => (Path.mem_names hs).1
  · cases h

theorem Disk.canonicalAt_rooted (hp : p.rooted = true) : (d.canonicalAt p).rooted = true := by
  unfold Disk.canonicalAt
  split
  · rfl
  · exact hp

/-! ## 3. Paths that last -/

/-- An end that is left out does not count. -/
theorem Path.names_openEnd (p : Path) :
    (Path.openEnd p.segments).filter (fun s => !Path.idle s) = p.names := by
  unfold Path.openEnd
  split
  · rename_i hlast
    obtain ⟨L, hL⟩ := List.getLast?_eq_some_iff.mp (by simpa using hlast)
    unfold Path.names
    rw [hL, List.dropLast_concat, List.filter_append]
    exact (List.append_nil _).symm
  · rfl

/-- The root of a project leads to the directory in which a path of the project
begins. -/
theorem root_way {L : List String} {k : Location} (hL : L ≠ [])
    (h : Disk.Way d true Disk.mostLinks [] (Path.openEnd P.root.segments ++ L) (.found k)) :
    ∃ K, Disk.Way d true Disk.mostLinks [] P.root.segments (.found K) ∧
      ∃ n ≤ Disk.mostLinks, Disk.Way d true n K L (.found k) := by
  obtain ⟨K, hK⟩ := h.concat_inv hL (.inr fun _ _ => by simp)
  obtain ⟨n, hn, happend⟩ := hK.append
  have hrest := Disk.resolveFrom_eq_ok_iff.mpr h
  rw [happend true L hL, Disk.resolveFrom_eq_ok_iff] at hrest
  obtain ⟨s, L, rfl⟩ := List.exists_cons_of_ne_nil hL
  refine ⟨K, hK.respaced ?_ (.inr hrest.directory), n, hn, hrest⟩
  exact P.root.names_openEnd.symm

/-- The steps of a rooted path in a project follow the canonical root, or the root. -/
theorem relative_steps (hp : p.rooted = true) (hrel : ((P.relative p).run d).value = .ok rel) :
    ∃ steps, rel = Project.plain steps ∧
      ((d.canonicalAt p).stepsBelow? (d.canonicalAt P.root) = some steps ∨
        p.stepsBelow? P.root = some steps) := by
  rw [relative_rooted P d hp] at hrel
  split at hrel
  · rename_i steps hsteps
    cases hrel
    exact ⟨steps, rfl, (Option.or_eq_some_iff.mp hsteps).imp id And.right⟩
  · cases hrel

/-- The root of a project leads somewhere if a path of the project does. -/
theorem root_located (hp : input.rooted = true)
    (hrel : ((P.relative input).run d).value = .ok rel) (hne : rel.segments ≠ []) {k : Location}
    (hk : Disk.Way d true Disk.mostLinks [] (P.absolute rel).segments (.found k)) :
    ∃ K, Disk.Way d true Disk.mostLinks [] P.root.segments (.found K) := by
  have hcases : rel.rooted = false ∨ P.root.names = [] := by
    obtain ⟨steps, rfl, hsteps | hsteps⟩ := relative_steps hp hrel
    · rcases Path.stepsBelow_names (Disk.canonicalAt_rooted hp) hsteps with
        ⟨L, hL, _⟩ | ⟨_, hbase, hnames⟩
      · exact .inl (by rw [hL])
      · unfold Disk.canonicalAt at hbase hnames
        split at hbase
        · cases hbase
        · rename_i hnone
          rw [hnone] at hnames
          exact .inr hnames
    · rcases Path.stepsBelow_names hp hsteps with ⟨L, hL, _⟩ | ⟨_, _, hnames⟩
      · exact .inl (by rw [hL])
      · exact .inr hnames
  rcases hcases with hunrooted | hnames
  · rw [absolute_unrooted P hunrooted] at hk
    obtain ⟨K, hK, _⟩ := root_way hne hk
    exact ⟨K, hK⟩
  · exact ⟨[], (Disk.Way.here Disk.mostLinks []).respaced hnames (.inr (Disk.find?_nil d))⟩

/-- A path that leads nowhere is spelled with the names of one that leads where its path
in the project does. -/
theorem relative_spelled (hp : input.rooted = true)
    (hrel : ((P.relative input).run d).value = .ok rel) (hne : rel.segments ≠ []) {k : Location}
    (hk : Disk.Way d true Disk.mostLinks [] (P.absolute rel).segments (.found k))
    (hnone : d.canonicalAt input = input) :
    ∃ segments, Disk.Way d true Disk.mostLinks [] segments (.found k) ∧
      input.names = segments.filter fun s => !Path.idle s := by
  have hnames : ∀ {L : List String}, (∀ s ∈ L, s ∈ input.names) →
      L.filter (fun s => !Path.idle s) = L := fun hL =>
    List.filter_eq_self.mpr fun s hs => by simp [(Path.mem_names (hL s hs)).1]
  obtain ⟨steps, rfl, hsteps⟩ := relative_steps hp hrel
  rw [hnone] at hsteps
  obtain ⟨base, hbase, hsteps⟩ : ∃ base, (base = P.root ∨ ∃ K, base = Disk.pathOf K ∧
      d.locate true P.root = .ok K) ∧ input.stepsBelow? base = some steps := by
    rcases hsteps with hsteps | hsteps
    · refine ⟨_, ?_, hsteps⟩
      unfold Disk.canonicalAt
      split
      · rename_i K hK
        exact .inr ⟨K, rfl, hK⟩
      · exact .inl rfl
    · exact ⟨_, .inl rfl, hsteps⟩
  rcases Path.stepsBelow_names hp hsteps with ⟨L, hL, _, hsplit⟩ | ⟨hplain, _, _⟩
  · have hkept := hnames (L := L) fun s hs => hsplit ▸ List.mem_append_right _ hs
    rw [hL] at hk hne
    rw [absolute_unrooted P rfl] at hk
    rcases hbase with rfl | ⟨K, rfl, hK⟩
    · refine ⟨_, hk, ?_⟩
      rw [List.filter_append, P.root.names_openEnd, hkept, hsplit]
    · -- the canonical root leads where the root does
      obtain ⟨K', hK', n, hn, hrest⟩ := root_way hne hk
      rw [Disk.locate_eq_ok_iff, Disk.resolve_eq_ok_iff] at hK
      cases (Disk.resolveFrom_eq_ok_iff.mpr hK').symm.trans (Disk.resolveFrom_eq_ok_iff.mpr hK.2)
      refine ⟨K ++ L, ((hK'.stairs .root).way hrest).more_links hn, ?_⟩
      rw [List.filter_append, hkept, hsplit]
      rfl
  · refine ⟨_, hk, ?_⟩
    rw [hplain]
    change _ = input.names.filter _
    rw [hnames fun s hs => hs]

/-- **The path of a file in the project stays the same** when the disk grows. -/
theorem relative_later (hg : d.Grows d') (hrel : ((P.relative input).run d).value = .ok rel)
    (hne : rel.segments ≠ []) (hfile : d.kindAt true (P.absolute rel) = some .file) :
    ((P.relative input).run d').value = .ok rel := by
  by_cases hr : input.rooted = true
  swap
  · rw [relative_unrooted P (by simpa using hr)] at hrel ⊢
    exact hrel
  obtain ⟨k, e, hk, he, hkind⟩ := Disk.kindAt_eq_some_iff.mp hfile
  rw [Disk.locate_eq_ok_iff, Disk.resolve_eq_ok_iff] at hk
  have hroot : ∀ l, d'.locate true P.root = .ok l → d.locate true P.root = .ok l := by
    intro l hl
    obtain ⟨K, hK⟩ := root_located hr hrel hne hk.2
    have htext := (Disk.resolve_eq_ok_iff.mp (Disk.locate_eq_ok_iff.mp hl)).1
    have hbefore : d.locate true P.root = .ok K :=
      Disk.locate_eq_ok_iff.mpr (Disk.resolve_eq_ok_iff.mpr ⟨htext, hK⟩)
    rw [hbefore, ← hl]
    exact (Disk.locate_grows hg hbefore).symm
  have hinput : ∀ l, d'.locate true input = .ok l → d.locate true input = .ok l := by
    intro l hl
    cases hd : d.locate true input with
    | ok l' => rw [← Disk.locate_grows hg hd, hl]
    | error f =>
      have hnone : d.canonicalAt input = input := by
        unfold Disk.canonicalAt
        rw [hd]
      obtain ⟨segments, hway, hnames⟩ := relative_spelled hr hrel hne hk.2 hnone
      cases e with
      | file c => exact hd.symm.trans (Disk.locate_before hg hway he hnames hl)
      | directory => cases hkind
      | link t => cases hkind
  rw [relative_rooted P d' hr, Disk.canonicalAt_later hg hinput, Disk.canonicalAt_later hg hroot,
    ← relative_rooted P d hr]
  exact hrel

end Scaffold
