import Scaffold.Proofs.Disk.Entries

/-!
# Where paths lead

* `Disk.Way` -- the rules by which segments lead from a location to a place;
  `resolveFrom_eq_ok_iff`: **resolving follows exactly these rules**;
* `Way.grows` -- what a path leads to stays where it is when a disk grows;
* `Way.fill` -- a path to a place where nothing is leads to what is put there;
* `Way.append`, `Way.concat_inv` -- the way of a longer path goes through the
  end of its beginning.
-/
namespace Scaffold

namespace Disk

/-! ## 1. The rules -/

/-- The segments lead from a location to a place, and no more than so many
links are followed on the way. -/
inductive Way (d : Disk) (follows : Bool) : Nat → Location → List String → Place → Prop
  | here (n : Nat) (l : Location) : Way d follows n l [] (.found l)
  | idle {n : Nat} {l : Location} {s : String} {rest : List String} {p : Place}
      (hl : d.find? l = some .directory) (hs : Path.idle s = true)
      (h : Way d follows n l rest p) : Way d follows n l (s :: rest) p
  | up {n : Nat} {l : Location} {rest : List String} {p : Place}
      (hl : d.find? l = some .directory) (h : Way d follows n l.dropLast rest p) :
      Way d follows n l (".." :: rest) p
  | down {n : Nat} {l : Location} {s : String} {rest : List String} {p : Place} {e : Entry}
      (hl : d.find? l = some .directory) (hs : Path.IsName s) (he : d.find? (l ++ [s]) = some e)
      (hlink : ∀ t, e ≠ .link t) (h : Way d follows n (l ++ [s]) rest p) :
      Way d follows n l (s :: rest) p
  | stop {n : Nat} {l : Location} {s : String} {t : Path} (hl : d.find? l = some .directory)
      (hs : Path.IsName s) (he : d.find? (l ++ [s]) = some (.link t)) (hf : follows = false) :
      Way d follows n l [s] (.found (l ++ [s]))
  | follow {n : Nat} {l : Location} {s : String} {rest : List String} {p : Place} {t : Path}
      (hl : d.find? l = some .directory) (hs : Path.IsName s)
      (he : d.find? (l ++ [s]) = some (.link t)) (hf : rest ≠ [] ∨ follows = true)
      (h : Way d follows n (if t.rooted then [] else l) (t.segments ++ rest) p) :
      Way d follows (n + 1) l (s :: rest) p
  | gap {n : Nat} {l : Location} {s : String} (hl : d.find? l = some .directory)
      (hs : Path.IsName s) (he : d.find? (l ++ [s]) = none) :
      Way d follows n l [s] (.missing l s)
  | gapSlash {n : Nat} {l : Location} {s : String} {rest : List String}
      (hl : d.find? l = some .directory) (hs : Path.IsName s) (he : d.find? (l ++ [s]) = none)
      (hne : rest ≠ []) (hrest : rest.all (· == "") = true) :
      Way d follows n l (s :: rest) (.missingSlash l s)

variable {d d' : Disk} {follows : Bool} {n : Nat} {l : Location} {segments : List String}
  {p : Place}

/-- Whatever the links lead to: the rules hold of a walk if they hold of what
is behind every link. -/
theorem way_of_walkFrom {onLink : Location → List String → Except Fault Place} {n : Nat}
    (hlink : ∀ (l l' : Location) (s : String) (rest : List String) (t : Path) (p : Place),
      d.find? l = some .directory → Path.IsName s → d.find? (l ++ [s]) = some (.link t) →
      (rest ≠ [] ∨ follows = true) → l' = (if t.rooted then [] else l) →
      onLink l' (t.segments ++ rest) = .ok p → Way d follows n l (s :: rest) p) :
    ∀ (segments : List String) (l : Location) (p : Place),
      walkFrom d follows onLink l segments = .ok p → Way d follows n l segments p
  | [], l, p, h => by
      simp only [walkFrom, Except.ok.injEq] at h
      subst h
      exact .here n l
  | s :: rest, l, p, h => by
      have ih := way_of_walkFrom hlink rest
      unfold walkFrom at h
      split at h
      · cases h
      rename_i hl
      have hl : d.find? l = some .directory := by simpa using hl
      split at h
      · rename_i hs
        exact .idle hl hs (ih l p h)
      rename_i hidle
      split at h
      · rename_i hs
        have hs : s = ".." := by simpa using hs
        subst hs
        exact .up hl (ih _ p h)
      rename_i hup
      have hs : Path.IsName s := by
        simp only [Path.idle, Bool.or_eq_true, beq_iff_eq, not_or] at hidle
        exact ⟨hidle.1, hidle.2, by simpa using hup⟩
      split at h
      · rename_i he
        split at h
        · rename_i hrest
          have hrest : rest = [] := by simpa using hrest
          simp only [Except.ok.injEq] at h
          subst h hrest
          exact .gap hl hs he
        · rename_i hne
          split at h
          · rename_i hrest
            simp only [Except.ok.injEq] at h
            subst h
            exact .gapSlash hl hs he (by simpa using hne) hrest
          · cases h
      · rename_i t he
        split at h
        · rename_i hend
          simp only [Bool.and_eq_true, List.isEmpty_iff, Bool.not_eq_true'] at hend
          simp only [Except.ok.injEq] at h
          subst h
          rw [hend.1]
          exact .stop hl hs he hend.2
        · rename_i hend
          refine hlink l _ s rest t p hl hs he ?_ rfl h
          simp only [Bool.and_eq_true, List.isEmpty_iff, Bool.not_eq_true', not_and] at hend
          by_cases hr : rest = []
          · exact .inr (by simpa using hend hr)
          · exact .inl hr
      · rename_i e hnolink he
        exact .down hl hs he (fun t ht => hnolink t (ht ▸ rfl)) (ih _ p h)

theorem way_of_resolveFrom : ∀ (n : Nat) (segments : List String) (l : Location) (p : Place),
    d.resolveFrom follows n l segments = .ok p → Way d follows n l segments p
  | 0, segments, l, p, h => by
      refine way_of_walkFrom ?_ segments l p h
      intro l l' s rest t p _ _ _ _ _ h
      cases h
  | n + 1, segments, l, p, h => by
      refine way_of_walkFrom ?_ segments l p h
      intro l l' s rest t p hl hs he hf hl' h
      subst hl'
      exact .follow hl hs he hf (way_of_resolveFrom n _ _ _ h)

theorem resolveFrom_of_way (h : Way d follows n l segments p) :
    d.resolveFrom follows n l segments = .ok p := by
  induction h with
  | here n l => cases n <;> rfl
  | idle hl hs _ ih =>
    rename_i n _ _ _ _ _
    cases n <;> simpa [resolveFrom, walkFrom, hl, hs] using ih
  | up hl _ ih =>
    rename_i n _ _ _ _
    cases n <;> simpa [resolveFrom, walkFrom, hl, Path.idle] using ih
  | down hl hs he hlink _ ih =>
    rename_i n _ _ _ _ e _
    cases e with
    | link t => exact absurd rfl (hlink t)
    | file c => cases n <;> simpa [resolveFrom, walkFrom, hl, hs.not_idle, hs.2.2, he] using ih
    | directory => cases n <;> simpa [resolveFrom, walkFrom, hl, hs.not_idle, hs.2.2, he] using ih
  | stop hl hs he hf =>
    rename_i n _ _ _
    cases n <;> simp [resolveFrom, walkFrom, hl, hs.not_idle, hs.2.2, he, hf]
  | follow hl hs he hf _ ih =>
    have hend : ¬(_ = [] ∧ follows = false) := fun h => hf.elim (· h.1) (by simp [h.2])
    simpa [resolveFrom, walkFrom, hl, hs.not_idle, hs.2.2, he, hend] using ih
  | gap hl hs he =>
    rename_i n _ _
    cases n <;> simp [resolveFrom, walkFrom, hl, hs.not_idle, hs.2.2, he]
  | @gapSlash n l s rest hl hs he hne hrest =>
    have hrest' : ∀ x ∈ rest, x = "" := by simpa using hrest
    cases n <;> simpa [resolveFrom, walkFrom, hl, hs.not_idle, hs.2.2, he, hne] using hrest'

/-- **Resolving follows exactly the rules.** -/
theorem resolveFrom_eq_ok_iff :
    d.resolveFrom follows n l segments = .ok p ↔ Way d follows n l segments p :=
  ⟨way_of_resolveFrom n segments l p, resolveFrom_of_way⟩

/-! ## 2. Disks that grow -/

/-- What a path leads to stays where it is when the disk grows, and so does the
gap it leads to while nothing fills it. -/
theorem Way.grows (h : Way d follows n l segments p) (hg : d.Grows d')
    (hgap : ∀ k s, p = .missing k s ∨ p = .missingSlash k s → d'.find? (k ++ [s]) = none) :
    Way d' follows n l segments p := by
  induction h with
  | here n l => exact .here n l
  | idle hl hs _ ih => exact .idle (hg.directory hl) hs (ih hgap)
  | up hl _ ih => exact .up (hg.directory hl) (ih hgap)
  | down hl hs he hlink _ ih =>
    obtain ⟨e', he', hb⟩ := hg _ _ he
    refine .down (hg.directory hl) hs he' (fun t ht => ?_) (ih hgap)
    rcases hb with rfl | ⟨_, hk⟩
    · exact hlink t ht
    · rw [ht] at hk
      cases hk
  | stop hl hs he hf => exact .stop (hg.directory hl) hs (hg.link he) hf
  | follow hl hs he hf _ ih => exact .follow (hg.directory hl) hs (hg.link he) hf (ih hgap)
  | gap hl hs _ => exact .gap (hg.directory hl) hs (hgap _ _ (.inl rfl))
  | gapSlash hl hs _ hne hrest =>
    exact .gapSlash (hg.directory hl) hs (hgap _ _ (.inr rfl)) hne hrest

theorem Way.found_grows {k : Location} (h : Way d follows n l segments (.found k))
    (hg : d.Grows d') : Way d' follows n l segments (.found k) :=
  h.grows hg fun _ _ hp => by rcases hp with hp | hp <;> cases hp

/-- A path to a place where nothing is leads to what is put there. -/
theorem Way.fill {k : Location} {s : String} {e : Entry}
    (h : Way d follows n l segments (.missing k s)) (hg : d.Grows d')
    (he : d'.find? (k ++ [s]) = some e) (hlink : ∀ t, e ≠ .link t) :
    Way d' follows n l segments (.found (k ++ [s])) := by
  generalize hp : Place.missing k s = p at h
  induction h with
  | here n l => cases hp
  | idle hl hs _ ih => exact .idle (hg.directory hl) hs (ih hp)
  | up hl _ ih => exact .up (hg.directory hl) (ih hp)
  | down hl hs he₁ hlink₁ _ ih =>
    obtain ⟨e', he', hb⟩ := hg _ _ he₁
    refine .down (hg.directory hl) hs he' (fun t ht => ?_) (ih hp)
    rcases hb with rfl | ⟨_, hk⟩
    · exact hlink₁ t ht
    · rw [ht] at hk
      cases hk
  | stop hl hs he hf => cases hp
  | follow hl hs he₁ hf _ ih => exact .follow (hg.directory hl) hs (hg.link he₁) hf (ih hp)
  | gap hl hs _ =>
    cases hp
    exact .down (hg.directory hl) hs he hlink (.here _ _)
  | gapSlash hl hs _ hne hrest => cases hp

/-- A path to a place where nothing is leads into a directory. -/
theorem Way.gap_inv {k : Location} {s : String} (h : Way d follows n l segments p)
    (hp : p = .missing k s ∨ p = .missingSlash k s) :
    d.find? k = some .directory ∧ Path.IsName s ∧ d.find? (k ++ [s]) = none := by
  induction h with
  | here n l => rcases hp with hp | hp <;> cases hp
  | idle _ _ _ ih => exact ih hp
  | up _ _ ih => exact ih hp
  | down _ _ _ _ _ ih => exact ih hp
  | stop hl hs he hf => rcases hp with hp | hp <;> cases hp
  | follow _ _ _ _ _ ih => exact ih hp
  | gap hl hs he =>
    rcases hp with hp | hp <;> cases hp
    exact ⟨hl, hs, he⟩
  | gapSlash hl hs he _ _ =>
    rcases hp with hp | hp <;> cases hp
    exact ⟨hl, hs, he⟩

/-! ## 3. Longer paths -/

/-- What follows a path is looked up from where the path leads. -/
theorem Way.append {k : Location} (h : Way d true n l segments (.found k)) :
    ∃ m ≤ n, ∀ (f : Bool) (rest : List String), rest ≠ [] →
      d.resolveFrom f n l (segments ++ rest) = d.resolveFrom f m k rest := by
  generalize hp : Place.found k = p at h
  induction h with
  | here n l =>
    cases hp
    exact ⟨n, Nat.le_refl n, fun _ _ _ => rfl⟩
  | @idle n l s rest p hl hs _ ih =>
    obtain ⟨m, hm, h⟩ := ih hp
    refine ⟨m, hm, fun f more hmore => ?_⟩
    rw [← h f more hmore]
    cases n <;> simp [resolveFrom, walkFrom, hl, hs]
  | @up n l rest p hl _ ih =>
    obtain ⟨m, hm, h⟩ := ih hp
    refine ⟨m, hm, fun f more hmore => ?_⟩
    rw [← h f more hmore]
    cases n <;> simp [resolveFrom, walkFrom, hl, Path.idle]
  | @down n l s rest p e hl hs he hlink _ ih =>
    obtain ⟨m, hm, h⟩ := ih hp
    refine ⟨m, hm, fun f more hmore => ?_⟩
    rw [← h f more hmore]
    cases e with
    | link t => exact absurd rfl (hlink t)
    | file c => cases n <;> simp [resolveFrom, walkFrom, hl, hs.not_idle, hs.2.2, he]
    | directory => cases n <;> simp [resolveFrom, walkFrom, hl, hs.not_idle, hs.2.2, he]
  | stop _ _ _ hf => cases hf
  | @follow n l s rest p t hl hs he _ _ ih =>
    obtain ⟨m, hm, h⟩ := ih hp
    refine ⟨m, Nat.le_succ_of_le hm, fun f more hmore => ?_⟩
    rw [← h f more hmore]
    simp [resolveFrom, walkFrom, hl, hs.not_idle, hs.2.2, he, hmore]
  | gap _ _ _ => cases hp
  | gapSlash _ _ _ _ _ => cases hp

/-- The way of a path that goes on goes through the end of its beginning, unless
nothing but slashes follows a place where nothing is. -/
theorem Way.concat_inv {rest : List String} (h : Way d follows n l (segments ++ rest) p)
    (hne : rest ≠ [])
    (hrest : (∃ s ∈ rest, Path.idle s = false) ∨ ∀ k s, p ≠ .missingSlash k s) :
    ∃ k, Way d true n l segments (.found k) := by
  generalize hall : segments ++ rest = all at h
  induction h generalizing segments with
  | here n l => exact absurd (List.append_eq_nil_iff.mp hall).2 hne
  | @idle n l s tail p hl hs h ih =>
    cases segments with
    | nil => exact ⟨l, .here n l⟩
    | cons s' segments =>
      obtain ⟨rfl, htail⟩ := List.cons.inj hall
      obtain ⟨k, hk⟩ := ih hrest htail
      exact ⟨k, .idle hl hs hk⟩
  | @up n l tail p hl h ih =>
    cases segments with
    | nil => exact ⟨l, .here n l⟩
    | cons s' segments =>
      obtain ⟨rfl, htail⟩ := List.cons.inj hall
      obtain ⟨k, hk⟩ := ih hrest htail
      exact ⟨k, .up hl hk⟩
  | @down n l s tail p e hl hs he hlink h ih =>
    cases segments with
    | nil => exact ⟨l, .here n l⟩
    | cons s' segments =>
      obtain ⟨rfl, htail⟩ := List.cons.inj hall
      obtain ⟨k, hk⟩ := ih hrest htail
      exact ⟨k, .down hl hs he hlink hk⟩
  | @stop n l s t hl hs he hf =>
    cases segments with
    | nil => exact ⟨l, .here n l⟩
    | cons s' segments =>
      obtain ⟨rfl, htail⟩ := List.cons.inj hall
      exact absurd (List.append_eq_nil_iff.mp htail).2 hne
  | @follow n l s tail p t hl hs he hf h ih =>
    cases segments with
    | nil => exact ⟨l, .here _ l⟩
    | cons s' segments =>
      obtain ⟨rfl, htail⟩ := List.cons.inj hall
      obtain ⟨k, hk⟩ := @ih (t.segments ++ segments) hrest (by rw [← htail]; simp)
      exact ⟨k, .follow hl hs he (.inr rfl) hk⟩
  | @gap n l s hl hs he =>
    cases segments with
    | nil => exact ⟨l, .here n l⟩
    | cons s' segments =>
      obtain ⟨rfl, htail⟩ := List.cons.inj hall
      exact absurd (List.append_eq_nil_iff.mp htail).2 hne
  | @gapSlash n l s tail hl hs he _ htail' =>
    cases segments with
    | nil => exact ⟨l, .here n l⟩
    | cons s' segments =>
      obtain ⟨rfl, htail⟩ := List.cons.inj hall
      obtain ⟨s, hs, hidle⟩ := hrest.resolve_right fun hp => hp l s' rfl
      have hmem : s ∈ tail := by rw [← htail]; exact List.mem_append_right _ hs
      have : s = "" := by simpa using List.all_eq_true.mp htail' s hmem
      subst this
      cases hidle

/-- What a path leads to has a way when a link at the end is not followed. -/
theorem Way.unfollowed {k : Location} (h : Way d true n l segments (.found k)) :
    ∃ k', Way d false n l segments (.found k') := by
  generalize hp : Place.found k = p at h
  induction h with
  | here n l => exact ⟨l, .here n l⟩
  | idle hl hs _ ih =>
    obtain ⟨k', h⟩ := ih hp
    exact ⟨k', .idle hl hs h⟩
  | up hl _ ih =>
    obtain ⟨k', h⟩ := ih hp
    exact ⟨k', .up hl h⟩
  | down hl hs he hlink _ ih =>
    obtain ⟨k', h⟩ := ih hp
    exact ⟨k', .down hl hs he hlink h⟩
  | stop _ _ _ hf => cases hf
  | @follow n l s rest p t hl hs he _ _ ih =>
    by_cases hrest : rest = []
    · subst hrest
      exact ⟨l ++ [s], .stop hl hs he rfl⟩
    · obtain ⟨k', h⟩ := ih hp
      exact ⟨k', .follow hl hs he (.inl hrest) h⟩
  | gap _ _ _ => cases hp
  | gapSlash _ _ _ _ _ => cases hp

/-- Segments that are no steps lead nowhere else. -/
theorem Way.idle_inv {k : Location} (h : Way d follows n l segments (.found k))
    (hs : ∀ s ∈ segments, Path.idle s = true) : k = l := by
  generalize hp : Place.found k = p at h
  have hname : ∀ {s : String}, Path.IsName s → Path.idle s = true → False := by
    intro s hs hidle
    rw [hs.not_idle] at hidle
    cases hidle
  induction h with
  | here n l => cases hp; rfl
  | idle _ _ _ ih => exact ih (fun t ht => hs t (List.mem_cons_of_mem _ ht)) hp
  | up _ _ _ => exact absurd (hs _ List.mem_cons_self) (by decide)
  | down _ hs' _ _ _ _ => exact (hname hs' (hs _ List.mem_cons_self)).elim
  | stop _ hs' _ _ => exact (hname hs' (hs _ List.mem_cons_self)).elim
  | follow _ hs' _ _ _ _ => exact (hname hs' (hs _ List.mem_cons_self)).elim
  | gap _ _ _ => cases hp
  | gapSlash _ _ _ _ _ => cases hp

/-- The segments at the end that are no steps can be left out. -/
theorem Way.trim {k : Location} {rest : List String}
    (h : Way d true n l (segments ++ rest) (.found k)) (hs : ∀ s ∈ rest, Path.idle s = true) :
    Way d true n l segments (.found k) := by
  by_cases hne : rest = []
  · subst hne
    rwa [List.append_nil] at h
  · obtain ⟨k', hk'⟩ := h.concat_inv hne (.inr fun _ _ => by simp)
    obtain ⟨m, _, happend⟩ := hk'.append
    have hrest := resolveFrom_eq_ok_iff.mpr h
    rw [happend true rest hne, resolveFrom_eq_ok_iff] at hrest
    rw [hrest.idle_inv hs]
    exact hk'

/-- Every step starts in a directory. -/
theorem Way.directory {s : String} {rest : List String} (h : Way d follows n l (s :: rest) p) :
    d.find? l = some .directory := by
  cases h <;> assumption

/-- Where a name leads. -/
theorem Way.name_inv {s : String} (h : Way d follows n l [s] p) (hs : Path.IsName s) :
    d.find? l = some .directory ∧
      ((d.find? (l ++ [s]) = none ∧ p = .missing l s) ∨
        ∃ e, d.find? (l ++ [s]) = some e ∧ (p = .found (l ++ [s]) ∨ ∃ t, e = .link t)) := by
  cases h with
  | idle _ hidle _ =>
    rw [hs.not_idle] at hidle
    cases hidle
  | up _ _ => exact absurd rfl hs.2.2
  | down hl _ he _ h =>
    cases h
    exact ⟨hl, .inr ⟨_, he, .inl rfl⟩⟩
  | stop hl _ he _ => exact ⟨hl, .inr ⟨_, he, .inl rfl⟩⟩
  | follow hl _ he _ _ => exact ⟨hl, .inr ⟨_, he, .inr ⟨_, rfl⟩⟩⟩
  | gap hl _ he => exact ⟨hl, .inl ⟨he, rfl⟩⟩
  | gapSlash _ _ _ hne _ => exact absurd rfl hne

/-- Without links a path to a name leads to something of that name. -/
theorem Way.last_name {s : String} (h : Way d true n l (segments ++ [s]) p) (hs : Path.IsName s)
    (hd : d.Linkless) : ∃ k, p = .missing k s ∨ p = .found (k ++ [s]) := by
  obtain ⟨k, hk⟩ := h.concat_inv (by simp) (.inl ⟨s, List.mem_singleton_self s, hs.not_idle⟩)
  obtain ⟨m, _, happend⟩ := hk.append
  have hlast := resolveFrom_eq_ok_iff.mpr h
  rw [happend true [s] (by simp), resolveFrom_eq_ok_iff] at hlast
  refine ⟨k, ?_⟩
  obtain ⟨_, ⟨_, hp⟩ | ⟨e, he, hp | ⟨t, rfl⟩⟩⟩ := hlast.name_inv hs
  · exact .inl hp
  · exact .inr hp
  · exact absurd rfl (hd _ _ he)

/-- The names on the way to something are those of what there is. -/
theorem Way.names {k : Location} (h : Way d follows n l segments (.found k)) :
    ∀ s ∈ segments, Path.IsName s → ∃ l e, d.find? (l ++ [s]) = some e := by
  generalize hp : Place.found k = p at h
  induction h with
  | here => exact fun s hs => absurd hs List.not_mem_nil
  | idle _ hidle _ ih =>
    intro s hs hname
    rcases List.mem_cons.mp hs with rfl | hs
    · exact absurd (hname.not_idle.symm.trans hidle) (by simp)
    · exact ih hp s hs hname
  | up _ _ ih =>
    intro s hs hname
    rcases List.mem_cons.mp hs with rfl | hs
    · exact absurd rfl hname.2.2
    · exact ih hp s hs hname
  | @down _ l _ _ _ e _ _ he _ _ ih =>
    intro s hs hname
    rcases List.mem_cons.mp hs with rfl | hs
    · exact ⟨l, e, he⟩
    · exact ih hp s hs hname
  | @stop _ l _ t _ _ he _ =>
    intro s hs _
    exact ⟨l, .link t, List.mem_singleton.mp hs ▸ he⟩
  | @follow _ l _ _ _ t _ _ he _ _ ih =>
    intro s hs hname
    rcases List.mem_cons.mp hs with rfl | hs
    · exact ⟨l, .link t, he⟩
    · exact ih hp s (List.mem_append_right _ hs) hname
  | gap => cases hp
  | gapSlash => cases hp

end Disk

end Scaffold
