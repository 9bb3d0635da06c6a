import Scaffold.Disk.State

/-!
# What a disk holds after a change

* `find?_put` -- one location changes, and no other;
* `Disk.Grounded` -- whatever there is lies in a directory;
* `Disk.Grows` -- nothing is lost: directories and links stay what they are,
  and files stay files. **Everything a job does makes a disk grow.**
-/
namespace Scaffold

/-- A segment that names something in a directory. -/
def Path.IsName (s : String) : Prop := s ≠ "" ∧ s ≠ "." ∧ s ≠ ".."

instance (s : String) : Decidable (Path.IsName s) :=
  inferInstanceAs (Decidable (_ ∧ _))

theorem Path.IsName.not_idle {s : String} (h : Path.IsName s) : Path.idle s = false := by
  simp [Path.idle, h.1, h.2.1]

namespace Disk

/-! ## 1. Looking up -/

@[simp] theorem find?_nil (d : Disk) : d.find? [] = some .directory := rfl

theorem find?_of_ne_nil (d : Disk) {l : Location} (h : l ≠ []) :
    d.find? l = d.entries.lookup l := by
  unfold find?
  rw [if_neg (by simpa using h)]

/-- Leaving out a location from a list of entries hides that location only. -/
theorem lookup_filter_ne (l l' : Location) : ∀ es : List (Location × Entry),
    (es.filter fun x => x.1 != l).lookup l' = if l' = l then none else es.lookup l'
  | [] => by simp
  | (k, e) :: es => by
      have ih := lookup_filter_ne l l' es
      by_cases hk : k = l
      · subst hk
        rw [List.filter_cons_of_neg (by simp), ih, List.lookup_cons]
        by_cases hl : l' = k
        · rw [if_pos hl, if_pos hl]
        · have : (l' == k) = false := by simpa using hl
          rw [if_neg hl, if_neg hl, this]
      · rw [List.filter_cons_of_pos (by simpa using hk), List.lookup_cons, ih, List.lookup_cons]
        by_cases hl : l' = l
        · subst hl
          have : (l' == k) = false := by simpa using Ne.symm hk
          rw [this, if_pos rfl]
        · rw [if_neg hl, if_neg hl]

theorem find?_put (d : Disk) {l : Location} (hl : l ≠ []) (e : Entry) (l' : Location) :
    (d.put l e).find? l' = if l' = l then some e else d.find? l' := by
  by_cases h' : l' = []
  · subst h'
    rw [if_neg (Ne.symm hl)]
    rfl
  · rw [find?_of_ne_nil _ h', find?_of_ne_nil _ h']
    unfold put
    rw [List.lookup_append, lookup_filter_ne]
    by_cases h : l' = l
    · simp [h]
    · have : (l' == l) = false := by simpa using h
      simp [h, List.lookup_cons, this]

@[simp] theorem find?_put_self (d : Disk) (l : Location) (s : String) (e : Entry) :
    (d.put (l ++ [s]) e).find? (l ++ [s]) = some e := by
  rw [find?_put d (by simp), if_pos rfl]

theorem find?_put_of_ne (d : Disk) {l l' : Location} (hl : l ≠ []) (e : Entry) (h : l' ≠ l) :
    (d.put l e).find? l' = d.find? l' := by
  rw [find?_put d hl, if_neg h]

/-- What there is right inside a location is listed there. -/
theorem mem_children {d : Disk} {l : Location} {s : String} {e : Entry}
    (h : d.find? (l ++ [s]) = some e) : (s, e.kind) ∈ d.children l := by
  rw [find?_of_ne_nil d (by simp), List.lookup_eq_some_iff] at h
  obtain ⟨before, after, hes, _⟩ := h
  unfold children
  rw [List.mem_filterMap]
  refine ⟨(l ++ [s], e), by simp [hes], ?_⟩
  simp

/-- What is listed in a location is there. -/
theorem find?_of_mem_children {d : Disk} {l : Location} {s : String} {k : EntryKind}
    (h : (s, k) ∈ d.children l) : ∃ e, d.find? (l ++ [s]) = some e := by
  unfold children at h
  rw [List.mem_filterMap] at h
  obtain ⟨⟨l', e⟩, hmem, hx⟩ := h
  have hl' : l' = l ++ [s] := by
    cases hlast : l'.getLast? with
    | none => simp [hlast] at hx
    | some name =>
      simp only [hlast] at hx
      split at hx
      · rename_i hdir
        simp only [Option.some.injEq, Prod.mk.injEq] at hx
        obtain ⟨ys, rfl⟩ := List.getLast?_eq_some_iff.mp hlast
        simp only [List.dropLast_concat, beq_iff_eq] at hdir
        rw [hdir, hx.1]
      · simp at hx
  have hsome : (d.entries.lookup (l ++ [s])).isSome := by
    rw [List.lookup_isSome_iff]
    exact ⟨(l', e), hmem, by simp [hl']⟩
  rw [find?_of_ne_nil d (by simp)]
  exact Option.isSome_iff_exists.mp hsome

/-- What holds of all entries of a disk holds of all that there is. -/
theorem forall_find?_iff {d : Disk} {Q : Location → String → Prop} :
    (∀ l s e, d.find? (l ++ [s]) = some e → Q l s) ↔
      ∀ x ∈ d.entries, ∀ s ∈ x.1.getLast?, Q x.1.dropLast s := by
  constructor
  · rintro h ⟨l', e⟩ hmem s hlast
    obtain ⟨l, rfl⟩ := List.getLast?_eq_some_iff.mp hlast
    have hsome : (d.find? (l ++ [s])).isSome := by
      rw [find?_of_ne_nil d (by simp), List.lookup_isSome_iff]
      exact ⟨(l ++ [s], e), hmem, by simp⟩
    obtain ⟨e', he'⟩ := Option.isSome_iff_exists.mp hsome
    dsimp only
    rw [List.dropLast_concat]
    exact h l s e' he'
  · intro h l s e he
    rw [find?_of_ne_nil d (by simp), List.lookup_eq_some_iff] at he
    obtain ⟨before, after, hes, _⟩ := he
    have := h (l ++ [s], e) (by simp [hes]) s (by simp)
    dsimp only at this
    rwa [List.dropLast_concat] at this

/-- There are no links. -/
def Linkless (d : Disk) : Prop := ∀ l e, d.find? l = some e → e.kind ≠ .link

theorem linkless_of_entries {d : Disk} (h : ∀ x ∈ d.entries, x.2.kind ≠ .link) : d.Linkless := by
  intro l e he
  by_cases hl : l = []
  · subst hl
    cases he
    decide
  · rw [find?_of_ne_nil d hl, List.lookup_eq_some_iff] at he
    obtain ⟨before, after, hes, _⟩ := he
    exact h (l, e) (by simp [hes])

theorem Linkless.put {d : Disk} (hd : d.Linkless) {l : Location} (hl : l ≠ []) {e : Entry}
    (he : e.kind ≠ .link) : (d.put l e).Linkless := by
  intro l' e' he'
  rw [find?_put d hl] at he'
  split at he'
  · cases he'
    exact he
  · exact hd l' e' he'

/-- Whatever there is can be named by a segment of a path. -/
def Named (d : Disk) : Prop := ∀ l s e, d.find? (l ++ [s]) = some e → Path.IsName s

instance (d : Disk) : Decidable d.Named := decidable_of_iff' _ forall_find?_iff

/-! ## 2. Disks whose entries lie in directories -/

/-- Whatever there is lies in a directory. -/
def Grounded (d : Disk) : Prop :=
  ∀ l s e, d.find? (l ++ [s]) = some e → d.find? l = some .directory

instance (d : Disk) : Decidable d.Grounded := decidable_of_iff' _ forall_find?_iff

/-- Below something that is no directory there is nothing. -/
theorem Grounded.nothing_below {d : Disk} (hd : d.Grounded) {l : Location} (s : String)
    (h : d.find? l ≠ some .directory) : d.find? (l ++ [s]) = none := by
  cases he : d.find? (l ++ [s]) with
  | none => rfl
  | some e => exact absurd (hd l s e he) h

theorem Grounded.put {d : Disk} (hd : d.Grounded) {l : Location} {s : String} {e : Entry}
    (hl : d.find? l = some .directory)
    (hs : d.find? (l ++ [s]) = some .directory → e = .directory) :
    (d.put (l ++ [s]) e).Grounded := by
  intro l' s' e' h
  have hne : l ++ [s] ≠ [] := by simp
  rw [find?_put d hne] at h ⊢
  have hl' : d.find? l' = some .directory := by
    split at h
    · rename_i heq
      obtain ⟨rfl, rfl⟩ := List.append_singleton_inj.mp heq
      exact hl
    · exact hd l' s' e' h
  split
  · rename_i heq
    rw [heq] at hl'
    rw [hs hl']
  · exact hl'

/-! ## 3. Disks that grow -/

/-- An entry may become another one when a disk grows: only what files hold may
change. -/
def Entry.Becomes (e e' : Entry) : Prop := e' = e ∨ (e.kind = .file ∧ e'.kind = .file)

/-- Nothing is lost from one disk to the other. -/
def Grows (d d' : Disk) : Prop :=
  ∀ l e, d.find? l = some e → ∃ e', d'.find? l = some e' ∧ Entry.Becomes e e'

theorem Grows.refl (d : Disk) : d.Grows d := fun _ e h => ⟨e, h, .inl rfl⟩

theorem Entry.Becomes.trans {a b c : Entry} (h : Entry.Becomes a b) (h' : Entry.Becomes b c) :
    Entry.Becomes a c := by
  rcases h with rfl | ⟨ha, hb⟩
  · exact h'
  · rcases h' with rfl | ⟨_, hc⟩
    · exact .inr ⟨ha, hb⟩
    · exact .inr ⟨ha, hc⟩

theorem Grows.trans {a b c : Disk} (h : a.Grows b) (h' : b.Grows c) : a.Grows c := by
  intro l e he
  obtain ⟨e₁, he₁, h₁⟩ := h l e he
  obtain ⟨e₂, he₂, h₂⟩ := h' l e₁ he₁
  exact ⟨e₂, he₂, h₁.trans h₂⟩

theorem Entry.Becomes.kind_eq {e e' : Entry} (h : Entry.Becomes e e') : e'.kind = e.kind := by
  rcases h with rfl | ⟨h, h'⟩
  · rfl
  · rw [h, h']

theorem Grows.directory {d d' : Disk} (h : d.Grows d') {l : Location}
    (hl : d.find? l = some .directory) : d'.find? l = some .directory := by
  obtain ⟨e', he', rfl | ⟨hk, _⟩⟩ := h l _ hl
  · exact he'
  · exact absurd hk (by decide)

theorem Grows.link {d d' : Disk} (h : d.Grows d') {l : Location} {p : Path}
    (hl : d.find? l = some (.link p)) : d'.find? l = some (.link p) := by
  obtain ⟨e', he', rfl | ⟨hk, _⟩⟩ := h l _ hl
  · exact he'
  · exact absurd hk (by simp [Entry.kind])

/-- A new entry, or new content for a file, makes a disk grow. -/
theorem grows_put (d : Disk) {l : Location} (hl : l ≠ []) {e : Entry}
    (h : ∀ old, d.find? l = some old → Entry.Becomes old e) : d.Grows (d.put l e) := by
  intro l' old hold
  rw [find?_put d hl]
  by_cases heq : l' = l
  · rw [if_pos heq]
    exact ⟨e, rfl, h old (heq ▸ hold)⟩
  · rw [if_neg heq]
    exact ⟨old, hold, .inl rfl⟩

end Disk

end Scaffold
