import Mathlib.Data.List.TakeWhile
import Mathlib.Data.List.Induction
import Scaffold.Proofs.Path.Neat

/-!
# Directories that are made for a file

* `makeDirs_of_directory` -- where there is a directory none is made;
* `makeDirs_names` -- below a directory, **the last directory that is made is
  new and empty**, and the others lie above it on the path; `made_below` and
  `made_above` say so of what is made for a path and for its parent;
* `Wrote` -- a file is written behind directories that were made for it, if any;
  `wrote_of_changeAt`: **it is a new file, or the one that was read there**.
-/
namespace Scaffold

/-! ## 1. Parents -/

theorem Path.trimEnd_concat {r : Bool} {S : List String} {s : String} (hs : Path.idle s = false) :
    (⟨r, S ++ [s]⟩ : Path).trimEnd = ⟨r, S ++ [s]⟩ := by
  have hdrop : ((S ++ [s]).reverse.dropWhile Path.idle).reverse = S ++ [s] := by
    simp [hs]
  unfold Path.trimEnd
  simp only [hdrop]
  cases hc : S ++ [s] with
  | nil => simp at hc
  | cons t ts => rfl

theorem Path.parent?_concat {r : Bool} {S : List String} {s : String} (hs : Path.idle s = false) :
    (⟨r, S ++ [s]⟩ : Path).parent? = some (⟨r, S⟩ : Path).trimEnd := by
  unfold Path.parent?
  rw [Path.trimEnd_concat hs, if_neg (by simp), List.dropLast_concat]

namespace Disk

variable {d d' d₁ : Disk} {p : Path} {r : Bool}

/-- A path leads where it leads without what follows its last step. -/
theorem Way.trimEnd {n : Nat} {k : Location} (h : Way d true n [] p.segments (.found k)) :
    Way d true n [] p.trimEnd.segments (.found k) := by
  have hsplit : p.segments = (p.segments.reverse.dropWhile Path.idle).reverse ++
      (p.segments.reverse.takeWhile Path.idle).reverse := by
    rw [← List.reverse_append, List.takeWhile_append_dropWhile, List.reverse_reverse]
  have hidle : ∀ s ∈ (p.segments.reverse.takeWhile Path.idle).reverse, Path.idle s = true :=
    fun s hs => List.mem_takeWhile_imp (List.mem_reverse.mp hs)
  unfold Path.trimEnd
  split
  · rename_i hnil
    rw [hnil, List.nil_append] at hsplit
    rw [hsplit] at h
    rw [h.idle_inv hidle]
    dsimp only
    split
    · exact .idle (find?_nil d) (by decide) (.here n [])
    · exact .here n []
  · rename_i s ss hcons
    rw [hsplit] at h
    have := h.trim hidle
    rwa [hcons] at this

/-- A path to a directory. -/
theorem kindAt_eq_directory_iff : d.kindAt true p = some .directory ↔
    ∃ k, p.text ≠ "" ∧ Way d true mostLinks [] p.segments (.found k) ∧
      d.find? k = some .directory := by
  rw [kindAt_eq_some_iff]
  constructor
  · rintro ⟨k, e, hk, he, hkind⟩
    rw [locate_eq_ok_iff, resolve_eq_ok_iff] at hk
    refine ⟨k, hk.1, hk.2, ?_⟩
    cases e with
    | file c => cases hkind
    | directory => exact he
    | link t => cases hkind
  · rintro ⟨k, htext, hk, he⟩
    refine ⟨k, .directory, ?_, he, rfl⟩
    rw [locate_eq_ok_iff, resolve_eq_ok_iff]
    exact ⟨htext, hk⟩

/-! ## 2. Making directories -/

/-- Where there is a directory none is made. -/
theorem makeDirs_of_directory (h : d.kindAt true p = some .directory) :
    d.makeDirs p = (.ok (), d) := by
  obtain ⟨l, e, hl, _, _⟩ := kindAt_eq_some_iff.mp h
  rw [locate_eq_ok_iff, resolve_eq_ok_iff] at hl
  obtain ⟨k, hk⟩ := hl.2.unfollowed
  have hmake : d.makeDir p = .error .alreadyExists := by
    unfold makeDir
    rw [resolve_eq_ok_iff.mpr ⟨hl.1, hk⟩]
  unfold makeDirs
  rw [hmake]
  dsimp only
  unfold orThere
  simp only [h]
  rfl

/-- The last step of a path into a directory. -/
theorem resolve_concat {R : List String} {k : Location} {s : String} {f : Bool}
    (hR : Way d true mostLinks [] R (.found k)) (hs : Path.IsName s)
    (hk : d.find? k = some .directory)
    (hlink : f = false ∨ ∀ t, d.find? (k ++ [s]) ≠ some (.link t)) :
    d.resolve f ⟨r, R ++ [s]⟩ =
      .ok (if d.find? (k ++ [s]) = none then .missing k s else .found (k ++ [s])) := by
  obtain ⟨m, _, happend⟩ := hR.append
  have hend : d.resolveFrom f m k [s] =
      .ok (if d.find? (k ++ [s]) = none then .missing k s else .found (k ++ [s])) := by
    rw [resolveFrom_eq_ok_iff]
    split
    · rename_i hnone
      exact .gap hk hs hnone
    · rename_i hsome
      obtain ⟨e, he⟩ := Option.ne_none_iff_exists'.mp hsome
      by_cases hlinked : ∃ t, e = .link t
      · obtain ⟨t, rfl⟩ := hlinked
        exact .stop hk hs he (hlink.resolve_right fun h => h t he)
      · exact .down hk hs he (fun t ht => hlinked ⟨t, ht⟩) (.here _ _)
  rw [resolve_eq_ok_iff]
  refine ⟨Path.text_ne_empty (s := s) (by simp) hs.1, ?_⟩
  rw [← resolveFrom_eq_ok_iff, happend f [s] (by simp), hend]

/-- Making a directory in a directory. -/
theorem makeDir_concat {R : List String} {k : Location} {s : String}
    (hR : Way d true mostLinks [] R (.found k)) (hs : Path.IsName s)
    (hk : d.find? k = some .directory) : d.makeDir ⟨r, R ++ [s]⟩ =
      if d.find? (k ++ [s]) = none then .ok (d.put (k ++ [s]) .directory)
      else .error .alreadyExists := by
  unfold makeDir
  rw [resolve_concat hR hs hk (.inl rfl)]
  by_cases hnone : d.find? (k ++ [s]) = none
  · rw [if_pos hnone, if_pos hnone]
  · rw [if_neg hnone, if_neg hnone]

/-- What directories that were made for a path come to. -/
structure Made (d : Disk) (R L : List String) (d₁ : Disk) (k : Location) : Prop where
  found : Way d₁ true mostLinks [] (R ++ L) (.found k)
  directory : d₁.find? k = some .directory
  new : d.find? k = none
  empty : ∀ s, d₁.find? (k ++ [s]) = none
  /-- Nothing was added but on the path. -/
  onPath : ∀ l, d₁.find? l = d.find? l ∨
    ∃ A B, A ≠ [] ∧ L = A ++ B ∧ Way d₁ true mostLinks [] (R ++ A) (.found l)

/-- One more directory. -/
theorem made_concat {R L : List String} {k : Location} {s : String} (hg : d₁.Grounded)
    (hext : d.Extends d₁) (hway : Way d₁ true mostLinks [] (R ++ L) (.found k))
    (hk : d₁.find? k = some .directory) (hs : Path.IsName s) (hgap : d₁.find? (k ++ [s]) = none)
    (hpath : ∀ l, d₁.find? l = d.find? l ∨
      ∃ A B, A ≠ [] ∧ L = A ++ B ∧ Way d₁ true mostLinks [] (R ++ A) (.found l)) :
    d.Made R (L ++ [s]) (d₁.put (k ++ [s]) .directory) (k ++ [s]) := by
  have hgrows : d₁.Grows (d₁.put (k ++ [s]) .directory) :=
    grows_put d₁ (by simp) fun old hold => by rw [hgap] at hold; cases hold
  have hfound : Way (d₁.put (k ++ [s]) .directory) true mostLinks [] (R ++ (L ++ [s]))
      (.found (k ++ [s])) := by
    have hresolve := resolve_concat (r := true) (f := true) hway hs hk
      (.inr fun t => by rw [hgap]; simp)
    rw [if_pos hgap, resolve_eq_ok_iff] at hresolve
    rw [← List.append_assoc]
    exact hresolve.2.fill hgrows (find?_put_self d₁ k s _) (by simp)
  refine ⟨hfound, find?_put_self d₁ k s _, ?_, fun t => ?_, fun l => ?_⟩
  · rcases hext (k ++ [s]) with h | ⟨h, _⟩
    · exact h ▸ hgap
    · exact h
  · rw [find?_put_of_ne d₁ (by simp) _ (by simp)]
    exact hg.nothing_below t (by simp [hgap])
  · by_cases hl : l = k ++ [s]
    · exact .inr ⟨L ++ [s], [], by simp, by simp, hl ▸ hfound⟩
    · rw [find?_put_of_ne d₁ (by simp) _ hl]
      rcases hpath l with h | ⟨A, B, hA, hL, h⟩
      · exact .inl h
      · exact .inr ⟨A, B ++ [s], hA, by rw [hL, List.append_assoc], h.found_grows hgrows⟩

/-- A directory that is made lies in one that was there. -/
theorem made_of_makeDir (hd : d.Grounded) {R L : List String} {s : String} (hs : Path.IsName s)
    (h : d.makeDir ⟨r, (R ++ L) ++ [s]⟩ = .ok d') : ∃ k, d.Made R (L ++ [s]) d' k := by
  obtain ⟨k', s', hr, _⟩ := makeDir_cases h
  obtain ⟨x, hx⟩ : ∃ x, d.resolve false ⟨r, (R ++ L) ++ [s]⟩ = .ok x := by
    rcases hr with hr | hr
    · exact ⟨_, hr⟩
    · exact ⟨_, hr⟩
  have hway := (resolve_eq_ok_iff.mp hx).2
  obtain ⟨k, hk⟩ := hway.concat_inv (by simp) (.inl ⟨s, by simp, hs.not_idle⟩)
  obtain ⟨m, _, happend⟩ := hk.append
  have hlast := resolveFrom_eq_ok_iff.mpr hway
  rw [happend false [s] (by simp), resolveFrom_eq_ok_iff] at hlast
  rw [makeDir_concat hk hs hlast.directory] at h
  split at h
  · rename_i hgap
    cases h
    exact ⟨_, made_concat hd (.refl d) hk hlast.directory hs hgap fun _ => .inl rfl⟩
  · cases h

theorem orThere_eq_ok {res : Except Fault Disk} (h : d.orThere p res = (.ok (), d')) :
    res = .ok d' ∨ d' = d := by
  unfold orThere at h
  split at h
  · exact .inl (congrArg Except.ok (congrArg Prod.snd h))
  · split at h
    · exact .inr (congrArg Prod.snd h).symm
    · cases h

/-- **Directories that are made below a directory**: none are, or the last one is
new and empty. -/
theorem makeDirs_names (hd : d.Grounded) {R : List String} {k₀ : Location}
    (hR : Way d true mostLinks [] R (.found k₀)) (hk₀ : d.find? k₀ = some .directory) :
    ∀ {L : List String} {d₁ : Disk}, (∀ s ∈ L, Path.IsName s) → L ≠ [] →
      d.makeDirs ⟨r, R ++ L⟩ = (.ok (), d₁) → d₁ = d ∨ ∃ k, d.Made R L d₁ k := by
  intro L
  induction L using List.reverseRecOn with
  | nil => exact fun _ hne => absurd rfl hne
  | append_singleton L s ih =>
    intro d₁ hL _ h
    have hs : Path.IsName s := hL s (by simp)
    have hL' : ∀ t ∈ L, Path.IsName t := fun t ht => hL t (List.mem_append_left _ ht)
    rw [← List.append_assoc] at h
    have hone : ∀ d', d.makeDir ⟨r, (R ++ L) ++ [s]⟩ = .ok d' → ∃ k, d.Made R (L ++ [s]) d' k :=
      fun d' hd' => made_of_makeDir hd hs hd'
    unfold makeDirs at h
    split at h
    · rename_i hmake
      rcases L.eq_nil_or_concat with rfl | ⟨L', t, rfl⟩
      · rw [List.append_nil, makeDir_concat hR hs hk₀] at hmake
        split at hmake <;> cases hmake
      · rw [List.concat_eq_append] at h hmake ih hL' hone ⊢
        have ht : Path.IsName t := hL' t (by simp)
        rw [← List.append_assoc, Path.parent?_concat hs.not_idle,
          Path.trimEnd_concat ht.not_idle] at h
        dsimp only at h
        split at h
        · cases h
        · rename_i d₂ hd₂
          rw [List.append_assoc] at hd₂
          rcases ih hL' (by simp) hd₂ with rfl | ⟨k, hmade⟩
          · rcases orThere_eq_ok h with h | h
            · exact .inr (hone d₁ (by rw [← List.append_assoc]; exact h))
            · exact .inl h
          · have hext := d.makeDirs_extends ⟨r, R ++ (L' ++ [t])⟩
            have hg := makeDirs_grounded hd ⟨r, R ++ (L' ++ [t])⟩
            rw [hd₂] at hext hg
            rw [List.append_assoc R L' [t], makeDir_concat hmade.found hs hmade.directory,
              if_pos (hmade.empty s)] at h
            cases h
            exact .inr ⟨_, made_concat hg hext hmade.found hmade.directory hs (hmade.empty s)
              hmade.onPath⟩
    · rcases orThere_eq_ok h with h | h
      · exact .inr (hone d₁ h)
      · exact .inl h

/-- The same below a path to a directory, which may be the last one. -/
theorem made_below (hd : d.Grounded) {R L : List String}
    (hR : d.kindAt true ⟨r, R⟩ = some .directory) (hL : ∀ s ∈ L, Path.IsName s)
    (h : d.makeDirs ⟨r, R ++ L⟩ = (.ok (), d₁)) : d₁ = d ∨ ∃ k, d.Made R L d₁ k := by
  by_cases hne : L = []
  · rw [hne, List.append_nil, makeDirs_of_directory hR] at h
    exact .inl (congrArg Prod.snd h).symm
  · obtain ⟨k₀, _, hway, hk₀⟩ := kindAt_eq_directory_iff.mp hR
    exact makeDirs_names hd hway hk₀ hL hne h

/-- The same for the parent of a path that goes on with a name. -/
theorem made_above (hd : d.Grounded) {R L : List String} {name : String}
    (hR : d.kindAt true ⟨r, R⟩ = some .directory) (hL : ∀ s ∈ L, Path.IsName s)
    (hname : Path.IsName name) {parent : Path}
    (hparent : (⟨r, R ++ L ++ [name]⟩ : Path).parent? = some parent) (htext : parent.text ≠ "")
    (h : d.makeDirs parent = (.ok (), d₁)) : d₁ = d ∨ ∃ k, d.Made R L d₁ k := by
  rw [Path.parent?_concat hname.not_idle] at hparent
  cases hparent
  rcases L.eq_nil_or_concat with rfl | ⟨L', t, rfl⟩
  · -- the parent is the directory, but for what follows its last step
    obtain ⟨k₀, _, hway, hk₀⟩ := kindAt_eq_directory_iff.mp hR
    rw [List.append_nil] at h htext
    have hdir : d.kindAt true (⟨r, R⟩ : Path).trimEnd = some .directory :=
      kindAt_eq_directory_iff.mpr ⟨k₀, htext, Way.trimEnd hway, hk₀⟩
    rw [makeDirs_of_directory hdir] at h
    exact .inl (congrArg Prod.snd h).symm
  · rw [List.concat_eq_append] at hL h ⊢
    have ht : Path.IsName t := hL t (by simp)
    rw [← List.append_assoc, Path.trimEnd_concat ht.not_idle, List.append_assoc] at h
    exact made_below hd hR hL h

/-! ## 3. Writing behind new directories -/

/-- A file was written at a path, where there was what was read there before, and
no other file changed. What else is new are directories on the path. -/
structure Wrote (d : Disk) (r : Bool) (R L : List String) (name : String)
    (content : Option Content → Content) (d' : Disk) (G : Location) : Prop where
  located : d'.locate true ⟨r, R ++ L ++ [name]⟩ = .ok G
  holds : d'.find? G =
    some (.file (content (d.readAt ⟨r, R ++ L ++ [name]⟩).toOption))
  before : d.find? G = (d.readAt ⟨r, R ++ L ++ [name]⟩).toOption.map .file
  others : ∀ l, l ≠ G → d'.find? l = d.find? l ∨
    (d.find? l = none ∧ d'.find? l = some .directory ∧
      ∃ A B, A ≠ [] ∧ L = A ++ B ∧ Way d' true mostLinks [] (R ++ A) (.found l))

variable {R L : List String} {name : String} {content : Option Content → Content} {G : Location}

theorem Wrote.file_iff (h : d.Wrote r R L name content d' G) {F : Location} (hF : F ≠ G)
    (c : Content) : d'.find? F = some (.file c) ↔ d.find? F = some (.file c) := by
  rcases h.others F hF with h | ⟨h, h', _⟩
  · rw [h]
  · simp [h, h']

/-- What is written without new directories is a new file, or the one that was
read there. -/
theorem wrote_there (h : d.changeAt ⟨r, R ++ L ++ [name]⟩ content = .ok d') :
    ∃ G, d.Wrote r R L name content d' G := by
  obtain ⟨G, hGne, hG, hd', hold⟩ := changeAt_located h
  refine ⟨G, hG, ?_, ?_, fun l hl => .inl ?_⟩
  · rw [hd', find?_put d hGne, if_pos rfl]
  · cases hread : d.readAt ⟨r, R ++ L ++ [name]⟩ with
    | ok c =>
      obtain ⟨l, hl, hfile⟩ := readAt_eq_ok_iff.mp hread
      have hl' := locate_grows (changeAt_grows h) hl
      rw [hG] at hl'
      cases hl'
      exact hfile
    | error f =>
      rcases hold with hold | ⟨c, _, hc⟩
      · exact hold
      · rw [hread] at hc
        cases hc
  · rw [hd', find?_put_of_ne d hGne _ hl]

/-- Where the last directory is new, nothing is read, before and after it was
made. -/
theorem Made.unread {k : Location} (hmade : d.Made R L d₁ k) (hname : Path.IsName name) {d₀ : Disk}
    (hd₀ : d₀.Grows d₁) : (d₀.readAt ⟨r, R ++ L ++ [name]⟩).toOption = none := by
  have hgap : d₁.resolve true ⟨r, R ++ L ++ [name]⟩ = .ok (.missing k name) := by
    rw [resolve_concat hmade.found hname hmade.directory
      (.inr fun t => by rw [hmade.empty name]; simp), if_pos (hmade.empty name)]
  cases hread : d₀.readAt ⟨r, R ++ L ++ [name]⟩ with
  | error f => rfl
  | ok c =>
    obtain ⟨l, hl, _⟩ := readAt_eq_ok_iff.mp hread
    have hl' := locate_grows hd₀ hl
    rw [locate_eq_ok_iff, hgap] at hl'
    cases hl'

/-- **What is written behind new directories is a new file.** -/
theorem Made.wrote {k : Location} (hmade : d.Made R L d₁ k) (hext : d.Extends d₁)
    (hname : Path.IsName name) (hwrite : d₁.changeAt ⟨r, R ++ L ++ [name]⟩ content = .ok d') :
    ∃ G, d.Wrote r R L name content d' G := by
  obtain ⟨G, hGne, hG, hd', hold⟩ := changeAt_located hwrite
  have hunread := hmade.unread (r := r) hname hext.grows
  have hunread₁ := hmade.unread (r := r) hname (.refl d₁)
  have hnone : d.find? G = none := by
    have hnone₁ : d₁.find? G = none := by
      rcases hold with hold | ⟨c, _, hread⟩
      · exact hold
      · rw [hread] at hunread₁
        cases hunread₁
    rcases hext G with h | ⟨h, _⟩
    · exact h ▸ hnone₁
    · exact h
  refine ⟨G, hG, ?_, ?_, fun l hl => ?_⟩
  · rw [hd', find?_put d₁ hGne, if_pos rfl, hunread₁, hunread]
  · rw [hunread]
    exact hnone
  · rw [hd', find?_put_of_ne d₁ hGne _ hl, ← hd']
    rcases hext l with h | ⟨h, h'⟩
    · exact .inl h
    · refine .inr ⟨h, h', ?_⟩
      rcases hmade.onPath l with hsame | ⟨A, B, hA, hL, hway⟩
      · rw [hsame, h] at h'
        cases h'
      · exact ⟨A, B, hA, hL, hway.found_grows (changeAt_grows hwrite)⟩

/-- A file that is written after directories were made for it, if any. -/
theorem wrote_of_changeAt (hmade : d₁ = d ∨ ∃ k, d.Made R L d₁ k) (hext : d.Extends d₁)
    (hname : Path.IsName name) (h : d₁.changeAt ⟨r, R ++ L ++ [name]⟩ content = .ok d') :
    ∃ G, d.Wrote r R L name content d' G := by
  rcases hmade with rfl | ⟨k, hmade⟩
  · exact wrote_there h
  · exact hmade.wrote hext hname h

end Disk

end Scaffold
