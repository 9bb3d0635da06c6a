import Scaffold.Proofs.Disk.Distinct
import Scaffold.Proofs.Disk.Making

/-!
# Disks that differ in what files hold

* `SameShape` -- the same directories, links and files, whatever the files hold;
* `SameShape.resolve`, `SameShape.kindAt`, `SameShape.mem_children` -- **paths lead to the
  same places, and the same names are listed**;
* `sameShape_put` -- writing over a file keeps the shape;
* `makeDirs_parent` -- above a file no directory has to be made.
-/
namespace Scaffold.Disk

variable {d d' : Disk} {follows : Bool} {l : Location} {p : Path}

/-! ## 1. Places -/

/-- The disks differ at most in what their files hold. -/
def SameShape (d d' : Disk) : Prop :=
  ∀ l, d'.find? l = d.find? l ∨
    ∃ c c', d.find? l = some (.file c) ∧ d'.find? l = some (.file c')

theorem SameShape.kind (h : SameShape d d') (l : Location) :
    (d'.find? l).map Entry.kind = (d.find? l).map Entry.kind := by
  rcases h l with hsame | ⟨c, c', hc, hc'⟩
  · rw [hsame]
  · rw [hc, hc']
    rfl

theorem SameShape.directory_iff (h : SameShape d d') :
    d'.find? l = some .directory ↔ d.find? l = some .directory := by
  rcases h l with hsame | ⟨c, c', hc, hc'⟩
  · rw [hsame]
  · simp [hc, hc']

theorem SameShape.walkFrom (h : SameShape d d')
    (onLink : Location → List String → Except Fault Place) (segments : List String) :
    ∀ l, d'.walkFrom follows onLink l segments = d.walkFrom follows onLink l segments := by
  induction segments with
  | nil => exact fun l => rfl
  | cons s rest ih =>
    intro l
    have hdir : (d'.find? l != some .directory) = (d.find? l != some .directory) := by
      rw [Bool.eq_iff_iff]
      simp [h.directory_iff]
    unfold Disk.walkFrom
    rw [hdir, ih l, ih l.dropLast, ih (l ++ [s])]
    rcases h (l ++ [s]) with hsame | ⟨c, c', hc, hc'⟩
    · rw [hsame]
    · rw [hc, hc']

theorem SameShape.resolveFrom (h : SameShape d d') (segments : List String) :
    ∀ (n : Nat) (l : Location),
      d'.resolveFrom follows n l segments = d.resolveFrom follows n l segments := by
  have hall : ∀ n : Nat, d'.resolveFrom follows n = d.resolveFrom follows n := by
    intro n
    induction n with
    | zero =>
      funext l segments
      exact h.walkFrom _ segments l
    | succ n ih =>
      funext l segments
      unfold Disk.resolveFrom
      rw [ih]
      exact h.walkFrom _ segments l
  exact fun n l => by rw [hall n]

/-- **Paths lead to the same places.** -/
theorem SameShape.resolve (h : SameShape d d') (follows : Bool) (p : Path) :
    d'.resolve follows p = d.resolve follows p := by
  unfold Disk.resolve
  rw [h.resolveFrom]

theorem SameShape.locate (h : SameShape d d') (follows : Bool) (p : Path) :
    d'.locate follows p = d.locate follows p := by
  unfold Disk.locate
  rw [h.resolve]

/-- What there is at a path is of the same kind. -/
theorem SameShape.kindAt (h : SameShape d d') (follows : Bool) (p : Path) :
    d'.kindAt follows p = d.kindAt follows p := by
  unfold Disk.kindAt
  rw [h.locate]
  split
  · exact h.kind _
  · rfl

/-- **The same names are listed**, and as the same kinds. -/
theorem SameShape.mem_children (h : SameShape d d') (hd : d.Distinct) (hd' : d'.Distinct)
    {s : String} {k : EntryKind} : (s, k) ∈ d'.children l ↔ (s, k) ∈ d.children l := by
  have hkind := h.kind (l ++ [s])
  rw [hd.mem_children, hd'.mem_children, ← Option.map_eq_some_iff, ← Option.map_eq_some_iff, hkind]

/-! ## 2. Writing over a file -/

/-- Writing over a file keeps the shape. -/
theorem sameShape_put {c : Content} (hl : d.find? l = some (.file c)) (c' : Content) :
    SameShape d (d.put l (.file c')) := by
  have hne := ne_nil_of_file hl
  intro k
  by_cases hk : k = l
  · subst hk
    exact .inr ⟨c, c', hl, by rw [find?_put d hne, if_pos rfl]⟩
  · exact .inl (find?_put_of_ne d hne _ hk)

/-- Writing over a file changes what it holds. -/
theorem changeAt_of_locate {content : Option Content → Content} {c : Content}
    (hl : d.locate true p = .ok l) (hc : d.find? l = some (.file c)) :
    d.changeAt p content = .ok (d.put l (.file (content (some c)))) := by
  unfold changeAt
  rw [locate_eq_ok_iff.mp hl]
  dsimp only
  rw [hc]

/-- Above a file no directory has to be made. -/
theorem makeDirs_parent {A : List String} {n : String} {c : Content} {parent : Path}
    (hp : p.segments = A ++ [n]) (hread : d.readAt p = .ok c) (hn : Path.IsName n)
    (hparent : p.parent? = some parent) (htext : parent.text ≠ "") :
    d.makeDirs parent = (.ok (), d) := by
  obtain ⟨r, S⟩ := p
  obtain rfl : S = A ++ [n] := hp
  obtain ⟨l, hl, -⟩ := readAt_eq_ok_iff.mp hread
  rw [locate_eq_ok_iff, resolve_eq_ok_iff] at hl
  rw [Path.parent?_concat hn.not_idle] at hparent
  cases hparent
  -- the way to the file goes through the directory above it
  obtain ⟨k, hk⟩ := hl.2.concat_inv (by simp) (.inl ⟨n, List.mem_singleton_self n, hn.not_idle⟩)
  obtain ⟨m, _, happend⟩ := hk.append
  have hlast := resolveFrom_eq_ok_iff.mpr hl.2
  rw [happend true [n] (by simp), resolveFrom_eq_ok_iff] at hlast
  exact makeDirs_of_directory
    (kindAt_eq_directory_iff.mpr ⟨k, htext, Way.trimEnd hk, hlast.directory⟩)

end Scaffold.Disk
