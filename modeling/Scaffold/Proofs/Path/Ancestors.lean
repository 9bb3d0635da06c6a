import Scaffold.Proofs.Project.Standing

/-!
# Paths above a path

However a path is spelled, the paths above it are its beginnings.

* `components_trimEnd`, `components_parent` -- what is behind the last step does not
  count, and **a parent takes the first steps**; `components_ancestor`: so does every path
  above a path;
* `relocate_shape` -- a path that is relocated: the segments of the tree stand in it, and
  steps behind them;
* `startsWith_testRootOf` -- **a test directory lies in the root of its tests**, whatever
  path it is made for.
-/
namespace Scaffold.Path

/-! ## 1. Parents -/

/-- What is behind the last step does not count. -/
theorem components_trimEnd (p : Path) : p.trimEnd.components = p.components := by
  have hsplit : p.segments = (p.segments.reverse.dropWhile idle).reverse ++
      (p.segments.reverse.takeWhile idle).reverse := by
    rw [← List.reverse_append, List.takeWhile_append_dropWhile, List.reverse_reverse]
  have hdots : (p.segments.reverse.takeWhile idle).reverse.filter (fun s => !idle s) = [] :=
    List.filter_eq_nil_iff.mpr fun s hs => by
      simpa using List.mem_takeWhile_imp (List.mem_reverse.mp hs)
  have hnames : p.names = (p.segments.reverse.dropWhile idle).reverse.filter fun s => !idle s := by
    unfold names
    conv_lhs => rw [hsplit, List.filter_append, hdots, List.append_nil]
  rw [p.components_eq_names, hnames]
  unfold trimEnd
  split
  · rename_i hnil
    rw [hnil]
    obtain ⟨r, L⟩ := p
    cases r with
    | true => rw [if_pos rfl, if_neg (by simp [beginsHere])]; rfl
    | false =>
      cases hb : (⟨false, L⟩ : Path).beginsHere with
      | true => rfl
      | false => rfl
  · rename_i s ss hcons
    have hhead : p.segments.head? = some s := by
      rw [hsplit, hcons]
      rfl
    rw [hcons, components_eq_names]
    have hbegins : (⟨p.rooted, s :: ss⟩ : Path).beginsHere = p.beginsHere := by
      unfold beginsHere
      rw [hhead]
      rfl
    rw [hbegins]
    rfl

/-- **A parent takes the first steps of a path.** -/
theorem components_parent {p q : Path} (h : p.parent? = some q) : q.components <+: p.components := by
  unfold parent? at h
  split at h
  · cases h
  · cases h
    rw [components_trimEnd, ← p.components_trimEnd]
    have hrooted : p.trimEnd.rooted = p.rooted := p.trimEnd_subset.1
    generalize p.trimEnd = t at hrooted ⊢
    obtain ⟨r, L⟩ := t
    cases hrooted
    rcases L.eq_nil_or_concat with rfl | ⟨M, s, rfl⟩
    · exact List.prefix_refl _
    · rw [List.concat_eq_append, List.dropLast_concat, components_eq_names, components_eq_names]
      have hnames : (⟨p.rooted, M ++ [s]⟩ : Path).names =
          (⟨p.rooted, M⟩ : Path).names ++ [s].filter fun s => !idle s := List.filter_append ..
      rw [hnames, List.map_append, ← List.append_assoc]
      cases M with
      | nil =>
        refine List.IsPrefix.trans ?_ (List.prefix_append _ _)
        split
        · exact List.prefix_refl _
        · rw [if_neg (by simp [beginsHere])]
          exact List.prefix_append _ _
      | cons t M => exact List.prefix_append _ _

/-- The paths above a path take its first steps. -/
theorem components_ancestor {p q : Path} (h : q ∈ p.ancestors) : q.components <+: p.components := by
  rw [ancestors] at h
  rcases List.mem_cons.mp h with rfl | h
  · exact List.prefix_refl _
  · split at h
    · exact absurd h List.not_mem_nil
    · rename_i parent hparent
      exact (components_ancestor h).trans (components_parent hparent)
termination_by p.segments.length
decreasing_by exact length_parent?_lt (by assumption)

theorem mem_ancestors_self (p : Path) : p ∈ p.ancestors := by
  rw [ancestors]
  exact List.mem_cons_self

/-- A path that goes on with steps has its beginning above it. -/
theorem mem_ancestors {r : Bool} {Y L : List String} {t : String} (ht : idle t = false)
    (hL : ∀ s ∈ L, idle s = false) : ⟨r, Y ++ [t]⟩ ∈ (⟨r, (Y ++ [t]) ++ L⟩ : Path).ancestors := by
  induction L using List.reverseRecOn with
  | nil =>
    rw [List.append_nil]
    exact mem_ancestors_self _
  | append_singleton L s ih =>
    have hs : idle s = false := hL s (by simp)
    have ih := ih fun u hu => hL u (List.mem_append_left _ hu)
    have htrim : (⟨r, (Y ++ [t]) ++ L⟩ : Path).trimEnd = ⟨r, (Y ++ [t]) ++ L⟩ := by
      rcases L.eq_nil_or_concat with rfl | ⟨M, u, rfl⟩
      · rw [List.append_nil]
        exact trimEnd_concat ht
      · rw [List.concat_eq_append, ← List.append_assoc]
        exact trimEnd_concat (hL u (by simp))
    rw [← List.append_assoc, ancestors, parent?_concat hs]
    exact List.mem_cons_of_mem _ (htrim.symm ▸ ih)

/-! ## 2. Test directories -/

theorem openEnd_of_notMem {L : List String} (h : "" ∉ L) : openEnd L = L := by
  unfold openEnd
  rw [if_neg]
  intro hlast
  exact h (List.mem_of_getLast? (by simpa using hlast))

/-- Steps behind a path that has no empty segments. -/
theorem walk_stepOf {r : Bool} {D L : List String} (hD : "" ∉ D) (hL : ∀ s ∈ L, idle s = false) :
    (⟨r, D⟩ : Path).walk (L.map stepOf) = ⟨r, D ++ L⟩ := by
  induction L generalizing D with
  | nil => simp [walk]
  | cons s L ih =>
    have hs : s ≠ "" := by
      rintro rfl
      simpa [idle_empty] using hL "" List.mem_cons_self
    have hchild : (⟨r, D⟩ : Path).child s = ⟨r, D ++ [s]⟩ := by
      unfold child join
      rw [if_neg (by simp), openEnd_of_notMem hD]
    have hstep : (⟨r, D⟩ : Path).walk ((s :: L).map stepOf) =
        ((⟨r, D⟩ : Path).child s).walk (L.map stepOf) := by
      simp [walk]
    rw [hstep, hchild, ih (by simpa [hD] using hs.symm) fun t ht => hL t (List.mem_cons_of_mem s ht),
      List.append_assoc]
    rfl

/-- A path that is relocated: the target stands in it, and steps behind the target. -/
theorem relocate_shape {S q : Path} {sourceDir : String} {T : List String} (hT : "" ∉ T)
    (hq : relocate S sourceDir ⟨false, T⟩ = .ok q) :
    ∃ X L, q = ⟨q.rooted, X ++ T ++ L⟩ ∧ ∀ s ∈ L, idle s = false := by
  -- the walk behind the root or the dot that the path begins with
  have hwalk : ∀ {r : Bool} {D N : List String}, "" ∉ D → (∀ s ∈ N, idle s = false) →
      relocateFrom sourceDir ⟨false, T⟩ ⟨r, D⟩ (N.map stepOf) = some q →
        ∃ X L, q = ⟨q.rooted, X ++ T ++ L⟩ ∧ ∀ s ∈ L, idle s = false := by
    intro r D N hD hN hfrom
    obtain ⟨A, B, rfl, rfl⟩ := relocateFrom_stepOf _ hfrom
    have hA : ∀ s ∈ A, idle s = false := fun s hs => hN s (by simp [hs])
    have hB : ∀ s ∈ B, idle s = false := fun s hs => hN s (by simp [hs])
    have hDA : "" ∉ D ++ A := by
      intro h
      rcases List.mem_append.mp h with h | h
      · exact hD h
      · simpa [idle_empty] using hA "" h
    have hjoin : (⟨r, D ++ A⟩ : Path).join ⟨false, T⟩ = ⟨r, D ++ A ++ T⟩ := by
      unfold join
      rw [if_neg (by simp), openEnd_of_notMem hDA]
    have hDAT : "" ∉ D ++ A ++ T := fun h => (List.mem_append.mp h).elim hDA hT
    refine ⟨D ++ A, B, ?_, hB⟩
    rw [walk_stepOf hD hA, hjoin, walk_stepOf hDAT hB]
  unfold Scaffold.relocate at hq
  split at hq
  · rename_i q' hq'
    cases hq
    obtain ⟨start, N, hcomponents, hN, rfl | ⟨rfl, _⟩ | ⟨rfl, _⟩⟩ := S.components_eq
    · rw [hcomponents] at hq'
      exact hwalk (D := []) (by simp) hN hq'
    · rw [hcomponents, List.singleton_append, relocateFrom, if_neg (by simp)] at hq'
      exact hwalk (r := false) (D := ["."]) (by simp) hN hq'
    · rw [hcomponents, List.singleton_append, relocateFrom, if_neg (by simp)] at hq'
      exact hwalk (r := true) (D := []) (by simp) hN hq'
  · cases hq

/-- **A test directory lies in the root of its tests**, whatever path it belongs to. -/
theorem startsWith_testRootOf {S T : Path} {sourceDir : String}
    (hT : relocate S sourceDir testsDir = .ok T) : T.startsWith (Tests.testRootOf T) = true := by
  obtain ⟨X, L, hshape, hL⟩ := relocate_shape (T := ["tests", "ut"]) (by decide) hT
  have hroot : (⟨T.rooted, X ++ ["tests", "ut"]⟩ : Path).endsWith testsDir = true := by
    have htests : testsDir.components = ["tests", "ut"].map stepOf := by decide
    have hnames : (⟨T.rooted, X ++ ["tests", "ut"]⟩ : Path).names =
        X.filter (fun s => !idle s) ++ ["tests", "ut"] := List.filter_append ..
    unfold endsWith
    rw [htests, components_eq_names, hnames, List.isSuffixOf_iff_suffix, List.map_append,
      ← List.append_assoc]
    exact List.suffix_append _ _
  have hmem : (⟨T.rooted, X ++ ["tests", "ut"]⟩ : Path) ∈
      T.ancestors.filter (·.endsWith testsDir) := by
    refine List.mem_filter.mpr ⟨?_, hroot⟩
    have habove := mem_ancestors (r := T.rooted) (Y := X ++ ["tests"]) (t := "ut") (by decide) hL
    rw [List.append_assoc X] at habove
    exact hshape.symm ▸ habove
  unfold Tests.testRootOf startsWith
  rw [List.isPrefixOf_iff_prefix, List.getLast?_eq_some_getLast (List.ne_nil_of_mem hmem)]
  exact components_ancestor (List.mem_filter.mp (List.getLast_mem (List.ne_nil_of_mem hmem))).1

end Scaffold.Path
