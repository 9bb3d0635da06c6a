import Scaffold.Proofs.Disk.Making

/-!
# Names below a directory

A path leads to a directory and goes on with names.

* `Clear` -- no links have these names; `Way.onward`, `Way.onward_inv`: **then the path
  leads to what has them, and nowhere else**;
* `Spread` -- all that is new lies on such a path or has one of some names at its end;
  `makeDirs_spread`: **directories that are made for the path lie on it**, however that
  ends.
-/
namespace Scaffold.Disk

variable {d d₁ d' : Disk} {G l : Location} {R L M : List String} {r : Bool} {s : String}

/-! ## 1. Where names lead -/

/-- There is no link on the way from a directory along the names. -/
def Clear (d : Disk) (G : Location) (L : List String) : Prop :=
  ∀ X, X <+: L → X ≠ [] → ∀ t, d.find? (G ++ X) ≠ some (.link t)

theorem Clear.initial (h : d.Clear G L) (hM : M <+: L) : d.Clear G M :=
  fun X hX => h X (hX.trans hM)

theorem Clear.last (h : d.Clear G (L ++ [s])) (t : Path) :
    d.find? ((G ++ L) ++ [s]) ≠ some (.link t) := by
  rw [List.append_assoc]
  exact h _ (List.prefix_refl _) (by simp) t

theorem Clear.extends (h : d.Clear G L) (hext : d.Extends d') : d'.Clear G L := by
  intro X hX hne t ht
  rcases hext (G ++ X) with hsame | ⟨_, hdir⟩
  · exact h X hX hne t (hsame ▸ ht)
  · rw [hdir] at ht
    cases ht

/-- What has the names is where the path leads. -/
theorem Way.onward (hd : d.Grounded) (hR : Way d true mostLinks [] R (.found G)) :
    ∀ {L : List String} {e : Entry}, (∀ s ∈ L, Path.IsName s) → d.Clear G L →
      d.find? (G ++ L) = some e → Way d true mostLinks [] (R ++ L) (.found (G ++ L)) := by
  intro L
  induction L using List.reverseRecOn with
  | nil =>
    intro _ _ _ _
    rwa [List.append_nil, List.append_nil]
  | append_singleton L s ih =>
    intro e hL hclear he
    rw [← List.append_assoc] at he
    rw [← List.append_assoc, ← List.append_assoc]
    have hdir := hd _ s e he
    have hway := ih (fun t ht => hL t (List.mem_append_left _ ht))
      (hclear.initial (List.prefix_append L [s])) hdir
    have hlast := resolve_concat (r := true) (f := true) hway (hL s (by simp)) hdir
      (.inr hclear.last)
    rw [if_neg (by rw [he]; simp), resolve_eq_ok_iff] at hlast
    exact hlast.2

/-- The path leads nowhere else. -/
theorem Way.onward_inv (hR : Way d true mostLinks [] R (.found G)) :
    ∀ {L : List String} {l : Location}, (∀ s ∈ L, Path.IsName s) → d.Clear G L →
      Way d true mostLinks [] (R ++ L) (.found l) → l = G ++ L := by
  intro L
  induction L using List.reverseRecOn with
  | nil =>
    intro l _ _ h
    rw [List.append_nil] at h ⊢
    cases (resolveFrom_eq_ok_iff.mpr h).symm.trans (resolveFrom_eq_ok_iff.mpr hR)
    rfl
  | append_singleton L s ih =>
    intro l hL hclear h
    have hs : Path.IsName s := hL s (by simp)
    rw [← List.append_assoc] at h
    obtain ⟨k, hk⟩ := h.concat_inv (by simp) (.inr fun _ _ => by simp)
    obtain rfl := ih (fun t ht => hL t (List.mem_append_left _ ht))
      (hclear.initial (List.prefix_append L [s])) hk
    obtain ⟨m, _, happend⟩ := hk.append
    have hend := resolveFrom_eq_ok_iff.mpr h
    rw [happend true [s] (by simp), resolveFrom_eq_ok_iff] at hend
    have hlast := resolve_concat (r := true) (f := true) hk hs hend.directory (.inr hclear.last)
    have hfound : d.resolve true ⟨true, (R ++ L) ++ [s]⟩ = .ok (.found l) :=
      resolve_eq_ok_iff.mpr ⟨Path.text_ne_empty (s := s) (by simp) hs.1, h⟩
    rw [hlast] at hfound
    split at hfound
    · cases hfound
    · cases hfound
      rw [List.append_assoc]

/-! ## 2. What is made on the way -/

/-- What is there stays there. -/
theorem Grows.isSome (hg : d.Grows d') (h : (d.find? l).isSome = true) :
    (d'.find? l).isSome = true := by
  obtain ⟨e, he⟩ := Option.isSome_iff_exists.mp h
  obtain ⟨e', he', -⟩ := hg l e he
  rw [he']
  rfl

/-- All that is new lies on the way from the directory along the names, and is a
directory, or has one of the last names at the end of the way. -/
def Spread (G : Location) (L names : List String) (d d' : Disk) : Prop :=
  ∀ l, d'.find? l = d.find? l ∨
    (d'.find? l = some .directory ∧ ∃ X, X <+: L ∧ X ≠ [] ∧ l = G ++ X) ∨
      ∃ x ∈ names, l = G ++ (L ++ [x])

variable {names names' : List String}

theorem Spread.refl (G : Location) (L names : List String) (d : Disk) : Spread G L names d d :=
  fun _ => .inl rfl

theorem Spread.mono (h : Spread G L names d d') (hn : names ⊆ names') : Spread G L names' d d' :=
  fun l => (h l).imp_right (Or.imp_right fun ⟨x, hx, hl⟩ => ⟨x, hn hx, hl⟩)

theorem Spread.longer (h : Spread G L [] d d') (hM : L <+: M) : Spread G M [] d d' := by
  intro l
  rcases h l with hsame | ⟨hdir, X, hX, hne, hl⟩ | ⟨x, hx, _⟩
  · exact .inl hsame
  · exact .inr (.inl ⟨hdir, X, hX.trans hM, hne, hl⟩)
  · exact absurd hx List.not_mem_nil

theorem Spread.trans (h : Spread G L names d d₁) (h' : Spread G L names d₁ d') :
    Spread G L names d d' := by
  intro l
  rcases h' l with hsame | hnew
  · rw [hsame]
    exact h l
  · exact .inr hnew

/-- What lies between two disks is spread as they are. -/
theorem Spread.between (h : Spread G L names d d') (hd : d.Extends d₁) (hd' : d₁.Extends d') :
    Spread G L names d d₁ := by
  intro l
  rcases hd l with hsame | ⟨hnone, hdir⟩
  · exact .inl hsame
  have hlater : d'.find? l = some .directory := by
    rcases hd' l with hsame | ⟨hnone', -⟩
    · exact hsame.trans hdir
    · rw [hdir] at hnone'
      cases hnone'
  rcases h l with hsame | ⟨-, hon⟩ | hlast
  · rw [hlater, hnone] at hsame
    cases hsame
  · exact .inr (.inl ⟨hdir, hon⟩)
  · exact .inr (.inr hlast)

/-- One more directory on the way. -/
theorem makeDir_spread (hd : d.Grounded) (hR : Way d true mostLinks [] R (.found G))
    (hL : ∀ t ∈ L ++ [s], Path.IsName t) (hclear : d.Clear G (L ++ [s]))
    (h : d.makeDir ⟨r, (R ++ L) ++ [s]⟩ = .ok d') : Spread G (L ++ [s]) [] d d' := by
  have hext := makeDir_extends h
  obtain ⟨k, hmade⟩ := made_of_makeDir hd (hL s (by simp)) h
  intro l
  rcases hext l with hsame | ⟨hnone, hdir⟩
  · exact .inl hsame
  rcases hmade.onPath l with hsame | ⟨A, B, hA, hAB, hway⟩
  · exact .inl hsame
  · have hinitial : A <+: L ++ [s] := ⟨B, hAB.symm⟩
    refine .inr (.inl ⟨hdir, A, hinitial, hA, ?_⟩)
    exact (hR.found_grows hext.grows).onward_inv (fun t ht => hL t (hinitial.subset ht))
      ((hclear.extends hext).initial hinitial) hway

/-- The result of making a directory, where one that is there will do, is spread as the
result. -/
theorem orThere_spread {res : Except Fault Disk} {p : Path}
    (h : ∀ d', res = .ok d' → Spread G L names d d') :
    Spread G L names d (d.orThere p res).2 :=
  orThere_keeps (.refl G L names d) h

/-- **Directories that are made for a path lie on it**, however that ends. -/
theorem makeDirs_spread (hR : Way d true mostLinks [] R (.found G))
    (hG : d.find? G = some .directory) (hd : d.Grounded) : ∀ {L : List String}, L ≠ [] →
      (∀ s ∈ L, Path.IsName s) → d.Clear G L → Spread G L [] d (d.makeDirs ⟨r, R ++ L⟩).2 := by
  intro L
  induction L using List.reverseRecOn with
  | nil => exact fun hne => absurd rfl hne
  | append_singleton L s ih =>
    intro _ hL hclear
    have hs : Path.IsName s := hL s (by simp)
    have hL' : ∀ t ∈ L, Path.IsName t := fun t ht => hL t (List.mem_append_left _ ht)
    have hone : ∀ d', d.makeDir ⟨r, (R ++ L) ++ [s]⟩ = .ok d' → Spread G (L ++ [s]) [] d d' :=
      fun d' hd' => makeDir_spread hd hR hL hclear hd'
    rw [← List.append_assoc]
    unfold makeDirs
    split
    · rename_i hmake
      rcases L.eq_nil_or_concat with rfl | ⟨L', t, rfl⟩
      · rw [List.append_nil, makeDir_concat hR hs hG] at hmake
        split at hmake <;> cases hmake
      rw [List.concat_eq_append] at ih hL hL' hclear hone hmake ⊢
      have ht : Path.IsName t := hL' t (by simp)
      rw [← List.append_assoc, Path.parent?_concat hs.not_idle, Path.trimEnd_concat ht.not_idle,
        List.append_assoc R L' [t]]
      dsimp only
      -- first those above, and then the last one
      have habove := ih (by simp) hL' (hclear.initial (List.prefix_append _ _))
      have hext := d.makeDirs_extends ⟨r, R ++ (L' ++ [t])⟩
      have hgrounded := makeDirs_grounded hd ⟨r, R ++ (L' ++ [t])⟩
      split
      · rename_i d₁ hd₁
        rw [hd₁] at habove
        exact habove.longer (List.prefix_append _ _)
      · rename_i d₁ hd₁
        rw [hd₁] at habove hext hgrounded
        refine (habove.longer (List.prefix_append _ _)).trans (orThere_spread fun d' hd' => ?_)
        exact makeDir_spread hgrounded (hR.found_grows hext.grows) hL (hclear.extends hext) hd'
    · exact orThere_spread hone

/-- **A file that is written behind the names is all that is new.** -/
theorem changeAt_spread {content : Option Content → Content}
    (hR : Way d true mostLinks [] R (.found G)) (hL : ∀ t ∈ L ++ [s], Path.IsName t)
    (hclear : d.Clear G (L ++ [s])) (h : d.changeAt ⟨r, R ++ (L ++ [s])⟩ content = .ok d') :
    Spread G L [s] d d' ∧ ∃ old, d'.find? (G ++ (L ++ [s])) = some (.file (content old)) := by
  obtain ⟨F, hF, hlocated, hput, -⟩ := changeAt_located h
  rw [locate_eq_ok_iff, resolve_eq_ok_iff] at hlocated
  have hclear' : d'.Clear G (L ++ [s]) := by
    intro X hX hne t ht
    rw [hput, find?_put _ hF] at ht
    split at ht
    · cases ht
    · exact hclear X hX hne t ht
  obtain rfl := (hR.found_grows (changeAt_grows h)).onward_inv hL hclear' hlocated.2
  refine ⟨fun l => ?_, _, by rw [hput, find?_put _ hF, if_pos rfl]⟩
  by_cases hl : l = G ++ (L ++ [s])
  · exact .inr (.inr ⟨s, List.mem_singleton_self s, hl⟩)
  · exact .inl (by rw [hput, find?_put_of_ne _ hF _ hl])

end Scaffold.Disk
