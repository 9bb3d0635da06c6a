import Mathlib.Data.List.Sort
import Mathlib.Data.String.Basic
import Scaffold.Proofs.BuildTree.Layout
import Scaffold.Proofs.Disk.Distinct

/-!
# What lies below a project

In a project without links, all questions about paths of names come down to what
there is at locations below its root.

* `Site` -- the layout of a project, where its names meet a condition `Q`;
* `Site.kindAt`, `Site.readAt`, `Site.mem_filesAt` -- **the answers of the disk, by
  locations**;
* `filesAt_congr`, `dirsAt_congr` -- listings in order depend on nothing but what
  there is;
* `Filed` -- one file was written, behind new directories at most;
  `Site.after_filed`: **the layout is kept**.
-/
namespace Scaffold

open Artifact (BuildList)
open BuildTree

/-! ## 1. Names in order -/

namespace BuildTree

theorem inOrder_eq (ns : List String) : inOrder ns = ns.insertionSort (· ≤ ·) := by
  have hinsert : ∀ (name : String) (ns : List String),
      insertInOrder name ns = ns.orderedInsert (· ≤ ·) name := by
    intro name ns
    induction ns with
    | nil => rfl
    | cons n ns ih =>
      unfold insertInOrder
      rw [List.orderedInsert_cons]
      by_cases h : n < name
      · rw [if_pos h, if_neg (not_le.mpr h), ih]
      · rw [if_neg h, if_pos (not_lt.mp h)]
  induction ns with
  | nil => rfl
  | cons n ns ih =>
    rw [List.insertionSort_cons, ← ih, ← hinsert]
    rfl

theorem nodup_inOrder {ns : List String} (h : ns.Nodup) : (inOrder ns).Nodup := by
  rw [inOrder_eq]
  exact (List.perm_insertionSort _ ns).nodup_iff.mpr h

theorem sorted_inOrder (ns : List String) : (inOrder ns).Pairwise (· ≤ ·) := by
  rw [inOrder_eq]
  exact List.pairwise_insertionSort _ ns

/-- Names in order are the same when they are the same names. -/
theorem eq_of_sorted {ns ms : List String} (hn : ns.Nodup) (hm : ms.Nodup)
    (hns : ns.Pairwise (· ≤ ·)) (hms : ms.Pairwise (· ≤ ·)) (h : ∀ n, n ∈ ns ↔ n ∈ ms) :
    ns = ms :=
  ((List.perm_ext_iff_of_nodup hn hm).mpr h).eq_of_pairwise
    (fun _ _ _ _ hle hge => le_antisymm hle hge) hns hms

end BuildTree

/-- The directories right inside a directory, in order, as a disk has them. -/
def dirsAt (P : Project) (d : Disk) (directory : Path) : List String :=
  match d.listAt (P.absolute directory) with
  | .ok entries => BuildTree.inOrder ((entries.filter fun e => e.2 == .directory).map Prod.fst)
  | .error _ => []

/-! ## 2. Sites -/

/-- A condition on names that the names of generated files meet. -/
structure Naming (Q : String → Prop) : Prop where
  isName : ∀ {s}, Q s → Path.IsName s
  list : Q BuildList.fileName
  test : ∀ {n}, Q n → Q ("ut_" ++ (Path.cutName n).1 ++ ".cpp")

/-- The source directory is not that of the tests, and its name is as wanted. -/
structure Project.Sited (P : Project) (Q : String → Prop) : Prop where
  sourceDir : Q P.config.sourceDir
  apart : P.config.sourceDir ≠ "tests"

/-- The root of the project is at a location, there are no links below it, and
the names of what lies below the sources and the tests are as wanted. -/
structure Site (P : Project) (Q : String → Prop) (R : Location) (d : Disk) : Prop where
  grounded : d.Grounded
  distinct : d.Distinct
  root : d.locate true (P.absolute Path.empty) = .ok R
  directory : d.find? R = some .directory
  linkless : ∀ l t, d.find? (R ++ l) ≠ some (.link t)
  sources : ∀ L s e, d.find? (R ++ (P.config.sourceDir :: L ++ [s])) = some e → Q s
  tests : ∀ L s e, d.find? (R ++ (["tests", "ut"] ++ L ++ [s])) = some e → Q s

/-- Where test directories and source directories of these names lie. -/
def testsAt (N : List String) : List String := ["tests", "ut"] ++ N

def Project.sourcesAt (P : Project) (N : List String) : List String := P.config.sourceDir :: N

theorem testsAt_concat (N : List String) (n : String) : testsAt (N ++ [n]) = testsAt N ++ [n] :=
  (List.append_assoc _ _ _).symm

variable {P : Project} {Q : String → Prop} {R : Location} {d d' : Disk} {L N A : List String}
  {s n : String}

/-- On a disk without links, a project is a site if all names are as wanted. -/
theorem site_of_names (hgrounded : d.Grounded) (hdistinct : d.Distinct)
    (hroot : d.locate true (P.absolute Path.empty) = .ok R) (hdir : d.find? R = some .directory)
    (hlinks : d.Linkless) (hnames : ∀ l s e, d.find? (l ++ [s]) = some e → Q s) :
    Site P Q R d := by
  refine ⟨hgrounded, hdistinct, hroot, hdir, fun l t hl => hlinks _ _ hl rfl,
    fun L s e he => ?_, fun L s e he => ?_⟩
  · rw [← List.append_assoc] at he
    exact hnames _ s e he
  · rw [← List.append_assoc] at he
    exact hnames _ s e he

theorem Site.placed (h : Site P Q R d) : P.Placed d :=
  Disk.kindAt_eq_some_iff.mpr ⟨R, .directory, h.root, h.directory, rfl⟩

theorem names_testsAt (hQ : Naming Q) (hN : ∀ s ∈ N, Q s) : ∀ s ∈ testsAt N, Path.IsName s := by
  intro s hs
  rcases List.mem_append.mp hs with hs | hs
  · exact Path.tests_neat s hs
  · exact hQ.isName (hN s hs)

theorem names_sourcesAt (hQ : Naming Q) (hP : P.Sited Q) (hN : ∀ s ∈ N, Q s) :
    ∀ s ∈ P.sourcesAt N, Path.IsName s := by
  intro s hs
  rcases List.mem_cons.mp hs with rfl | hs
  · exact hQ.isName hP.sourceDir
  · exact hQ.isName (hN s hs)

/-- Below the root, a path of names leads to a directory that has these names. -/
theorem Site.way (h : Site P Q R d) (hA : ∀ t ∈ A, Path.IsName t)
    (hdir : d.find? (R ++ A) = some .directory) :
    Disk.Way d true Disk.mostLinks [] (Path.openEnd P.root.segments ++ A) (.found (R ++ A)) := by
  induction A using List.reverseRecOn with
  | nil =>
    have hsegments : (P.absolute Path.empty).segments = Path.openEnd P.root.segments :=
      List.append_nil _
    have hroot := h.root
    rw [Disk.locate_eq_ok_iff, Disk.resolve_eq_ok_iff, hsegments] at hroot
    rw [List.append_nil, List.append_nil]
    exact hroot.2
  | append_singleton A s ih =>
    rw [← List.append_assoc] at hdir ⊢
    have habove : d.find? (R ++ A) = some .directory := h.grounded _ s _ hdir
    have hresolve := Disk.resolve_concat (r := true) (f := true)
      (ih (fun t ht => hA t (List.mem_append_left _ ht)) habove) (hA s (by simp)) habove
      (.inr fun t => by rw [hdir]; simp)
    rw [hdir, if_neg (by simp), Disk.resolve_eq_ok_iff] at hresolve
    rw [← List.append_assoc]
    exact hresolve.2

/-- **What there is at a path of names is what has these names.** -/
theorem Site.locate_iff (h : Site P Q R d) (hL : ∀ t ∈ A ++ [s], Path.IsName t) {G : Location} :
    d.locate true (P.absolute ⟨false, A ++ [s]⟩) = .ok G ↔
      G = R ++ (A ++ [s]) ∧ (d.find? (R ++ (A ++ [s]))).isSome := by
  have hs : Path.IsName s := hL s (by simp)
  constructor
  · intro hG
    have hGeq := Disk.locate_names h.root h.linkless hL hG
    obtain ⟨hfind⟩ : ∃ e, d.find? G = some e := by
      rw [Disk.locate_eq_ok_iff, Disk.absolute_in, Disk.resolve_eq_ok_iff] at hG
      obtain ⟨k, hk⟩ := hG.2.concat_inv (by simp)
        (.inl ⟨s, List.mem_singleton_self s, hs.not_idle⟩)
      obtain ⟨m, _, happend⟩ := hk.append
      have hlast := Disk.resolveFrom_eq_ok_iff.mpr hG.2
      rw [happend true [s] (by simp), Disk.resolveFrom_eq_ok_iff] at hlast
      obtain ⟨_, ⟨_, hp⟩ | ⟨e, he, hp | ⟨t, rfl⟩⟩⟩ := hlast.name_inv hs
      · cases hp
      · cases hp
        exact ⟨e, he⟩
      · have hkA : k = R ++ A := by
          have hR := h.root
          have hsegments : (P.absolute Path.empty).segments = Path.openEnd P.root.segments :=
            List.append_nil _
          rw [Disk.locate_eq_ok_iff, Disk.resolve_eq_ok_iff, hsegments] at hR
          exact Disk.way_names hR.2 h.linkless (fun t ht => hL t (List.mem_append_left _ ht)) hk
        rw [hkA, List.append_assoc] at he
        exact absurd he (h.linkless _ t)
    subst hGeq
    exact ⟨rfl, by rw [‹d.find? _ = _›]; rfl⟩
  · rintro ⟨rfl, hsome⟩
    obtain ⟨e, he⟩ := Option.isSome_iff_exists.mp hsome
    rw [← List.append_assoc] at he
    have habove : d.find? (R ++ A) = some .directory := h.grounded _ s _ he
    rw [Disk.locate_eq_ok_iff, Disk.absolute_in,
      Disk.resolve_concat (h.way (fun t ht => hL t (List.mem_append_left _ ht)) habove) hs habove
        (.inr fun t => by rw [List.append_assoc]; exact h.linkless _ t), he, if_neg (by simp),
      List.append_assoc]

/-- The same for any path of names but the empty one. -/
theorem Site.located (h : Site P Q R d) (hL : ∀ t ∈ L, Path.IsName t) (hne : L ≠ [])
    {G : Location} : d.locate true (P.absolute ⟨false, L⟩) = .ok G ↔
      G = R ++ L ∧ (d.find? (R ++ L)).isSome := by
  rcases L.eq_nil_or_concat with rfl | ⟨A, s, rfl⟩
  · exact absurd rfl hne
  · rw [List.concat_eq_append] at hL ⊢
    exact h.locate_iff hL

theorem Site.kindAt (h : Site P Q R d) (hL : ∀ t ∈ L, Path.IsName t) (hne : L ≠ []) :
    d.kindAt true (P.absolute ⟨false, L⟩) = (d.find? (R ++ L)).map Entry.kind := by
  refine Option.ext fun k => ?_
  rw [Disk.kindAt_eq_some_iff, Option.map_eq_some_iff]
  constructor
  · rintro ⟨G, e, hG, he, hk⟩
    obtain ⟨rfl, _⟩ := (h.located hL hne).mp hG
    exact ⟨e, he, hk⟩
  · rintro ⟨e, he, hk⟩
    exact ⟨_, e, (h.located hL hne).mpr ⟨rfl, by rw [he]; rfl⟩, he, hk⟩

theorem Site.readAt (h : Site P Q R d) (hL : ∀ t ∈ L, Path.IsName t) (hne : L ≠ [])
    {c : Content} : d.readAt (P.absolute ⟨false, L⟩) = .ok c ↔
      d.find? (R ++ L) = some (.file c) := by
  rw [Disk.readAt_eq_ok_iff]
  constructor
  · rintro ⟨G, hG, he⟩
    obtain ⟨rfl, _⟩ := (h.located hL hne).mp hG
    exact he
  · intro he
    exact ⟨_, (h.located hL hne).mpr ⟨rfl, by rw [he]; rfl⟩, he⟩

theorem Site.listAt (h : Site P Q R d) (hL : ∀ t ∈ L, Path.IsName t) (hne : L ≠ [])
    {es : List (String × EntryKind)} : d.listAt (P.absolute ⟨false, L⟩) = .ok es ↔
      d.find? (R ++ L) = some .directory ∧ es = d.children (R ++ L) := by
  rw [Disk.listAt_eq_ok_iff]
  constructor
  · rintro ⟨G, hG, he, hes⟩
    obtain ⟨rfl, _⟩ := (h.located hL hne).mp hG
    exact ⟨he, hes⟩
  · rintro ⟨he, hes⟩
    exact ⟨_, (h.located hL hne).mpr ⟨rfl, by rw [he]; rfl⟩, he, hes⟩

/-- A directory is no link. -/
theorem Site.ownKind (h : Site P Q R d) (hL : ∀ t ∈ L, Path.IsName t) (hne : L ≠ [])
    (hdir : d.find? (R ++ L) = some .directory) :
    d.kindAt false (P.absolute ⟨false, L⟩) = some .directory := by
  rcases L.eq_nil_or_concat with rfl | ⟨A, s, rfl⟩
  · exact absurd rfl hne
  · rw [List.concat_eq_append] at hL hdir ⊢
    rw [← List.append_assoc] at hdir
    have habove : d.find? (R ++ A) = some .directory := h.grounded _ s _ hdir
    refine Disk.kindAt_eq_some_iff.mpr ⟨R ++ A ++ [s], .directory, ?_, hdir, rfl⟩
    rw [Disk.locate_eq_ok_iff, Disk.absolute_in,
      Disk.resolve_concat (h.way (fun t ht => hL t (List.mem_append_left _ ht)) habove)
        (hL s (by simp)) habove (.inl rfl), hdir, if_neg (by simp)]

/-! ## 3. Listings -/

/-- **The files of a directory, by locations.** -/
theorem Site.mem_filesAt (h : Site P Q R d) (hL : ∀ t ∈ L, Path.IsName t) (hne : L ≠ [])
    (hn : ∀ e, d.find? (R ++ (L ++ [n])) = some e → Path.IsName n) {wanted : String → Bool} :
    n ∈ filesAt P d ⟨false, L⟩ wanted ↔
      wanted n = true ∧ ∃ c, d.find? (R ++ (L ++ [n])) = some (.file c) := by
  have hneat : (⟨false, L⟩ : Path).Neat := fun t ht => (hL t ht).not_idle
  have hkind : Path.IsName n → d.kindAt true ((P.absolute ⟨false, L⟩).child n) =
      (d.find? (R ++ (L ++ [n]))).map Entry.kind := by
    intro hname
    rw [Path.absolute_child P hneat hne, hneat.child]
    refine h.kindAt (fun t ht => ?_) (by simp)
    rcases List.mem_append.mp ht with ht | ht
    · exact hL t ht
    · exact List.mem_singleton.mp ht ▸ hname
  by_cases hdir : d.find? (R ++ L) = some .directory
  · unfold filesAt
    rw [(h.listAt hL hne).mpr ⟨hdir, rfl⟩]
    dsimp only
    rw [mem_inOrder, List.mem_filter, List.mem_filter]
    constructor
    · rintro ⟨⟨hmem, hw⟩, hk⟩
      obtain ⟨⟨m, k⟩, hentry, hm⟩ := List.mem_map.mp hmem
      obtain rfl : m = n := hm
      obtain ⟨e, he, rfl⟩ := h.distinct.mem_children.mp hentry
      rw [List.append_assoc] at he
      rw [hkind (hn e he), he] at hk
      cases e with
      | file c => exact ⟨hw, c, he⟩
      | directory => cases hk
      | link t => cases hk
    · rintro ⟨hw, c, hc⟩
      refine ⟨⟨List.mem_map.mpr ⟨(n, .file), h.distinct.mem_children.mpr ⟨.file c, ?_, rfl⟩, rfl⟩,
        hw⟩, ?_⟩
      · rw [List.append_assoc]
        exact hc
      · rw [hkind (hn _ hc), hc]
        rfl
  · unfold filesAt
    constructor
    · intro hmem
      split at hmem
      · rename_i es hl
        exact absurd ((h.listAt hL hne).mp hl).1 hdir
      · cases hmem
    · rintro ⟨_, c, hc⟩
      rw [← List.append_assoc] at hc
      exact absurd (h.grounded _ _ _ hc) hdir

/-- **The directories of a directory, by locations.** -/
theorem Site.mem_dirsAt (h : Site P Q R d) (hL : ∀ t ∈ L, Path.IsName t) (hne : L ≠ []) :
    n ∈ dirsAt P d ⟨false, L⟩ ↔ d.find? (R ++ (L ++ [n])) = some .directory := by
  unfold dirsAt
  rw [← List.append_assoc]
  constructor
  · intro hmem
    split at hmem
    · rename_i es hl
      obtain ⟨_, rfl⟩ := (h.listAt hL hne).mp hl
      rw [mem_inOrder] at hmem
      obtain ⟨⟨m, k⟩, hentry, hm⟩ := List.mem_map.mp hmem
      obtain rfl : m = n := hm
      rw [List.mem_filter, h.distinct.mem_children] at hentry
      obtain ⟨⟨e, he, rfl⟩, hk⟩ := hentry
      cases e with
      | file c => cases hk
      | directory => exact he
      | link t => cases hk
    · cases hmem
  · intro he
    rw [(h.listAt hL hne).mpr ⟨h.grounded _ _ _ he, rfl⟩]
    dsimp only
    rw [mem_inOrder]
    exact List.mem_map.mpr ⟨(n, .directory), List.mem_filter.mpr
      ⟨h.distinct.mem_children.mpr ⟨_, he, rfl⟩, rfl⟩, rfl⟩

theorem nodup_filesAt (P : Project) (hd : d.Distinct) (directory : Path)
    (wanted : String → Bool) : (filesAt P d directory wanted).Nodup := by
  unfold filesAt
  split
  · rename_i entries hl
    obtain ⟨l, _, _, rfl⟩ := Disk.listAt_eq_ok_iff.mp hl
    exact nodup_inOrder (((hd.nodup_children l).sublist List.filter_sublist).sublist
      List.filter_sublist)
  · exact List.nodup_nil

theorem nodup_dirsAt (P : Project) (hd : d.Distinct) (directory : Path) :
    (dirsAt P d directory).Nodup := by
  unfold dirsAt
  split
  · rename_i entries hl
    obtain ⟨l, _, _, rfl⟩ := Disk.listAt_eq_ok_iff.mp hl
    exact nodup_inOrder ((hd.nodup_children l).sublist (List.filter_sublist.map Prod.fst))
  · exact List.nodup_nil

/-- Listed files are in order. -/
theorem sorted_filesAt (P : Project) (d : Disk) (directory : Path) (wanted : String → Bool) :
    (filesAt P d directory wanted).Pairwise (· ≤ ·) := by
  unfold filesAt
  split
  · exact sorted_inOrder _
  · exact .nil

theorem sorted_dirsAt (P : Project) (d : Disk) (directory : Path) :
    (dirsAt P d directory).Pairwise (· ≤ ·) := by
  unfold dirsAt
  split
  · exact sorted_inOrder _
  · exact .nil

/-- The names of what there is in a directory can be steps of paths. -/
def NamedIn (R : Location) (d : Disk) (L : List String) : Prop :=
  ∀ n e, d.find? (R ++ (L ++ [n])) = some e → Path.IsName n

theorem Site.namedIn_sources (h : Site P Q R d) (hQ : Naming Q) (N : List String) :
    NamedIn R d (P.sourcesAt N) := fun n e he => hQ.isName (h.sources N n e he)

theorem Site.namedIn_tests (h : Site P Q R d) (hQ : Naming Q) (N : List String) :
    NamedIn R d (testsAt N) := fun n e he => hQ.isName (h.tests N n e he)

/-- **Where there are the same files of wanted names, they are listed alike.** -/
theorem filesAt_congr (h : Site P Q R d) (h' : Site P Q R d') (hL : ∀ t ∈ L, Path.IsName t)
    (hne : L ≠ []) (hn : NamedIn R d L) (hn' : NamedIn R d' L) {wanted : String → Bool}
    (hsame : ∀ n, wanted n = true → ((∃ c, d'.find? (R ++ (L ++ [n])) = some (.file c)) ↔
      ∃ c, d.find? (R ++ (L ++ [n])) = some (.file c))) :
    filesAt P d' ⟨false, L⟩ wanted = filesAt P d ⟨false, L⟩ wanted := by
  refine eq_of_sorted (nodup_filesAt P h'.distinct _ _) (nodup_filesAt P h.distinct _ _)
    (sorted_filesAt P d' _ _) (sorted_filesAt P d _ _) fun n => ?_
  rw [h'.mem_filesAt hL hne (hn' n), h.mem_filesAt hL hne (hn n)]
  exact and_congr_right fun hw => hsame n hw

/-- The same for directories. -/
theorem dirsAt_congr (h : Site P Q R d) (h' : Site P Q R d') (hL : ∀ t ∈ L, Path.IsName t)
    (hne : L ≠ []) (hsame : ∀ n, d'.find? (R ++ (L ++ [n])) = some .directory ↔
      d.find? (R ++ (L ++ [n])) = some .directory) :
    dirsAt P d' ⟨false, L⟩ = dirsAt P d ⟨false, L⟩ := by
  refine eq_of_sorted (nodup_dirsAt P h'.distinct _) (nodup_dirsAt P h.distinct _)
    (sorted_dirsAt P d' _) (sorted_dirsAt P d _) fun n => ?_
  rw [h'.mem_dirsAt hL hne, h.mem_dirsAt hL hne]
  exact hsame n

/-! ## 4. One file written -/

/-- A file was written where there was one or nothing. What else is new are
directories on the way to it. -/
structure Filed (R : Location) (T : List String) (old : Option Content) (new : Content)
    (d d' : Disk) : Prop where
  before : d.find? (R ++ T) = old.map .file
  after : d'.find? (R ++ T) = some (.file new)
  others : ∀ l, l ≠ R ++ T → d'.find? l = d.find? l ∨
    (d.find? l = none ∧ d'.find? l = some .directory ∧
      ∃ A B, A ≠ [] ∧ B ≠ [] ∧ T = A ++ B ∧ l = R ++ A)

variable {T X : List String} {old : Option Content} {new : Content}

/-- What is written at a path of names is written at the location with these
names. -/
theorem Site.filed (h : Site P Q R d) (hg : d.Grows d') (hA : ∀ t ∈ A, Path.IsName t)
    (hs : Path.IsName s) {G : Location}
    (hG : d'.locate true (P.absolute ⟨false, A ++ [s]⟩) = .ok G)
    (hbefore : d.find? G = old.map .file) (hafter : d'.find? G = some (.file new))
    (hothers : ∀ l, l ≠ G → d'.find? l = d.find? l ∨
      (d.find? l = none ∧ d'.find? l = some .directory ∧ ∃ B C, B ≠ [] ∧ A = B ++ C ∧
        d'.locate true (P.absolute ⟨false, B⟩) = .ok l)) :
    Filed R (A ++ [s]) old new d d' := by
  have hroot : d'.locate true (P.absolute Path.empty) = .ok R := Disk.locate_grows hg h.root
  have hlinks : ∀ l t, d'.find? (R ++ l) ≠ some (.link t) := by
    intro l t hlink
    by_cases hl : R ++ l = G
    · rw [hl, hafter] at hlink
      cases hlink
    · rcases hothers _ hl with hsame | ⟨_, hdir, _⟩
      · exact h.linkless l t (hsame ▸ hlink)
      · rw [hdir] at hlink
        cases hlink
  have hnames : ∀ t ∈ A ++ [s], Path.IsName t := by
    intro t ht
    rcases List.mem_append.mp ht with ht | ht
    · exact hA t ht
    · exact List.mem_singleton.mp ht ▸ hs
  obtain rfl : G = R ++ (A ++ [s]) := Disk.locate_names hroot hlinks hnames hG
  refine ⟨hbefore, hafter, fun l hl => ?_⟩
  rcases hothers l hl with hsame | ⟨hnone, hdir, B, C, hB, hBC, hlB⟩
  · exact .inl hsame
  · have hBnames : ∀ t ∈ B, Path.IsName t := fun t ht => hA t (hBC ▸ List.mem_append_left _ ht)
    exact .inr ⟨hnone, hdir, B, C ++ [s], hB, by simp, by rw [hBC, List.append_assoc],
      Disk.locate_names hroot hlinks hBnames hlB⟩

/-- What is there after a file was written was there, or lies on the way to it. -/
theorem Filed.there (h : Filed R T old new d d') (hT : T ≠ []) {l : Location} {e : Entry}
    (he : d'.find? l = some e) : d.find? l = some e ∨
      (e.kind ≠ .link ∧ ∃ A, A ≠ [] ∧ A <+: T ∧ l = R ++ A) := by
  by_cases hl : l = R ++ T
  · subst hl
    rw [h.after] at he
    cases he
    exact .inr ⟨by simp [Entry.kind], T, hT, List.prefix_refl T, rfl⟩
  · rcases h.others l hl with hsame | ⟨_, hdir, A, B, hA, _, hTAB, hlA⟩
    · exact .inl (hsame ▸ he)
    · rw [hdir] at he
      cases he
      exact .inr ⟨by simp [Entry.kind], A, hA, hTAB ▸ List.prefix_append A B, hlA⟩

theorem Filed.grows (h : Filed R T old new d d') : d.Grows d' := by
  intro l e he
  by_cases hl : l = R ++ T
  · subst hl
    rw [h.before] at he
    obtain ⟨c, _, rfl⟩ := Option.map_eq_some_iff.mp he
    exact ⟨_, h.after, .inr ⟨rfl, rfl⟩⟩
  · rcases h.others l hl with hsame | ⟨hnone, _⟩
    · exact ⟨e, hsame.trans he, .inl rfl⟩
    · rw [hnone] at he
      cases he

/-- What lies above something is a directory. -/
theorem Disk.Grounded.above (hd : d.Grounded) {l X : Location} {e : Entry} (hX : X ≠ [])
    (he : d.find? (l ++ X) = some e) : d.find? l = some .directory := by
  induction X using List.reverseRecOn generalizing e with
  | nil => exact absurd rfl hX
  | append_singleton X s ih =>
    rw [← List.append_assoc] at he
    have habove := hd _ s e he
    by_cases hX : X = []
    · rw [hX, List.append_nil] at habove
      exact habove
    · exact ih hX habove

/-- The directories after a file was written: those that were there, and those on
the way to it. -/
theorem Filed.directory_iff (h : Filed R T old new d d') (hd' : d'.Grounded) {l : Location} :
    d'.find? l = some .directory ↔ d.find? l = some .directory ∨
      ∃ A B, A ≠ [] ∧ B ≠ [] ∧ T = A ++ B ∧ l = R ++ A := by
  constructor
  · intro hl
    by_cases hT : l = R ++ T
    · rw [hT, h.after] at hl
      cases hl
    · rcases h.others l hT with hsame | ⟨_, _, hway⟩
      · exact .inl (hsame ▸ hl)
      · exact .inr hway
  · rintro (hl | ⟨A, B, _, hB, rfl, rfl⟩)
    · exact h.grows.directory hl
    · have hafter := h.after
      rw [← List.append_assoc] at hafter
      exact hd'.above hB hafter

/-- Elsewhere nothing changes but what becomes a directory. -/
theorem Filed.elsewhere (h : Filed R T old new d d') {l : Location} (hl : l ≠ R ++ T)
    (hdir : d'.find? l ≠ some .directory) : d'.find? l = d.find? l := by
  rcases h.others l hl with hsame | ⟨_, hd, _⟩
  · exact hsame
  · exact absurd hd hdir

/-- The location lies outside the tests. -/
def Outside (R : Location) (l : Location) : Prop := ¬R ++ ["tests"] <+: l

/-- The disks are the same outside the tests. -/
def Apart (R : Location) (d d' : Disk) : Prop := ∀ l, Outside R l → d'.find? l = d.find? l

theorem Apart.refl (R : Location) (d : Disk) : Apart R d d := fun _ _ => rfl

theorem Apart.trans {d'' : Disk} (h : Apart R d d') (h' : Apart R d' d'') : Apart R d d'' :=
  fun l hl => (h' l hl).trans (h l hl)

theorem Apart.symm (h : Apart R d d') : Apart R d' d := fun l hl => (h l hl).symm

theorem outside_sources (hP : P.Sited Q) (X : List String) :
    Outside R (R ++ P.sourcesAt X) := by
  rintro ⟨rest, hrest⟩
  rw [List.append_assoc] at hrest
  exact hP.apart (List.cons.inj (List.append_cancel_left hrest)).1.symm

theorem Apart.sources (h : Apart R d d') (hP : P.Sited Q) (N : List String) (n : String) :
    d'.find? (R ++ (P.sourcesAt N ++ [n])) = d.find? (R ++ (P.sourcesAt N ++ [n])) :=
  h _ (outside_sources hP (N ++ [n]))

/-- Files below the tests leave the rest alone. -/
theorem Filed.apart (h : Filed R (testsAt X) old new d d') : Apart R d d' := by
  intro l hl
  have hbelow : ∀ A, A ≠ [] → A <+: testsAt X → l ≠ R ++ A := by
    rintro A hA ⟨B, hB⟩ rfl
    obtain ⟨a, A, rfl⟩ := List.exists_cons_of_ne_nil hA
    obtain ⟨rfl, _⟩ := List.cons.inj hB
    exact hl ⟨A, by simp⟩
  rcases h.others l (hbelow _ (by simp [testsAt]) (List.prefix_refl _)) with hsame |
    ⟨_, _, A, B, hA, _, hT, hlA⟩
  · exact hsame
  · exact absurd hlA (hbelow A hA (hT ▸ List.prefix_append A B))

/-- **The layout is kept** when a file of a wanted name is written below the
tests. -/
theorem Site.after_filed (hP : P.Sited Q) (h : Site P Q R d) (hd' : d'.Grounded)
    (hdistinct : d'.Distinct) (hg : d.Grows d') (hX : ∀ t ∈ X, Q t)
    (hf : Filed R (testsAt X) old new d d') : Site P Q R d' := by
  have hT : testsAt X ≠ [] := by simp [testsAt]
  refine ⟨hd', hdistinct, Disk.locate_grows hg h.root, hg.directory h.directory,
    fun l t hl => ?_, fun Y s e he => ?_, fun Y s e he => ?_⟩
  · rcases hf.there hT hl with hold | ⟨hkind, _⟩
    · exact h.linkless l t hold
    · exact hkind rfl
  · refine h.sources Y s e ?_
    exact (hf.apart.sources hP Y s).symm.trans he
  · rcases hf.there hT he with hold | ⟨_, A, _, hA, hRA⟩
    · exact h.tests Y s e hold
    · have hA' := List.append_cancel_left hRA
      rw [← hA', List.append_assoc] at hA
      unfold testsAt at hA
      rw [List.prefix_append_right_inj] at hA
      exact hX s (hA.subset (by simp))

end Scaffold
