import Scaffold.Proofs.Disk.Making
import Scaffold.Proofs.Job.Trails

/-!
# Where the paths of a project lead

In a project without links, a relative path that never goes up leads below the
root, where its names say.

* `Path.Descends`, `Path.names` -- relative paths without `..`, and what they name;
* `Way.descends` -- without links, segments that do not go up **lead to what they
  name**, however many slashes and dots are between them;
* `answer_named`, `answer_links` -- requests add no odd names and no links;
* `Founded` -- the root of a project is there; `Founded.reached`: **whatever is asked,
  it stays so**; `Stands` -- besides, there are no links below it, and `locate_eq`;
* `Founded.relative` -- the path in the project of what a user writes: it goes up
  only where the user's does.
-/
namespace Scaffold

/-! ## 1. Relative paths that do not go up -/

namespace Path

/-- The names on a path; slashes and dots between them do not count. -/
def names (p : Path) : List String := p.segments.filter fun s => !idle s

theorem Neat.names {p : Path} (h : p.Neat) : p.names = p.segments :=
  List.filter_eq_self.mpr fun s hs => by simp [h s hs]

theorem mem_names {p : Path} {s : String} (h : s ∈ p.names) : idle s = false ∧ s ∈ p.segments := by
  have h := List.mem_filter.mp h
  exact ⟨by simpa using h.2, h.1⟩

/-- The names on a path make a neat one. -/
theorem names_neat (p : Path) : (⟨false, p.names⟩ : Path).Neat := fun _ hs => (mem_names hs).1

/-- What counts and does not go up is a name. -/
theorem isName_of_not_idle {s : String} (h : idle s = false) (hup : s ≠ "..") : IsName s := by
  unfold idle at h
  rw [Bool.or_eq_false_iff] at h
  exact ⟨by simpa using h.1, by simpa using h.2, hup⟩

/-- The steps of a path are its names, but for the beginning. -/
theorem components_eq_names (p : Path) : p.components =
    (if p.rooted then [.root] else if p.beginsHere then [.here] else []) ++ p.names.map stepOf := rfl

/-- The path is a relative one and has no `..`. -/
structure Descends (p : Path) : Prop where
  unrooted : p.rooted = false
  straight : ".." ∉ p.segments

theorem subset_openEnd (L : List String) : openEnd L ⊆ L := by
  unfold openEnd
  split
  · exact List.dropLast_subset L
  · exact List.Subset.refl L

theorem mem_child {p : Path} {s t : String} (h : t ∈ (p.child s).segments) :
    t ∈ p.segments ∨ t = s := by
  unfold child join at h
  rw [if_neg (by simp)] at h
  rcases List.mem_append.mp h with h | h
  · exact .inl (subset_openEnd _ h)
  · exact .inr (List.mem_singleton.mp h)

theorem Descends.child {p : Path} (h : p.Descends) {s : String} (hs : s ≠ "..") :
    (p.child s).Descends := by
  refine ⟨?_, fun hup => ?_⟩
  · unfold Path.child join
    rw [if_neg (by simp)]
    exact h.unrooted
  · rcases mem_child hup with hup | hup
    · exact h.straight hup
    · exact hs hup.symm

theorem trimEnd_subset (p : Path) :
    p.trimEnd.rooted = p.rooted ∧ p.trimEnd.segments ⊆ p.segments := by
  have hkept : (p.segments.reverse.dropWhile idle).reverse ⊆ p.segments := by
    intro s hs
    exact List.mem_reverse.mp ((List.dropWhile_suffix idle).subset (List.mem_reverse.mp hs))
  unfold trimEnd
  split
  · refine ⟨rfl, ?_⟩
    dsimp only
    split
    · rename_i hb
      unfold beginsHere at hb
      rw [Bool.and_eq_true, beq_iff_eq] at hb
      intro s hs
      exact List.mem_singleton.mp hs ▸ List.mem_of_head? hb.2
    · exact List.nil_subset _
  · rename_i s ss hs
    exact ⟨rfl, hs ▸ hkept⟩

/-- A parent does not end in a slash. -/
theorem openEnd_parent {p q : Path} (hq : p.parent? = some q) : openEnd q.segments = q.segments := by
  have htrim : ∀ p : Path, openEnd p.trimEnd.segments = p.trimEnd.segments := by
    intro p
    unfold openEnd
    rw [if_neg]
    unfold trimEnd
    split
    · dsimp only
      split <;> decide
    · rename_i s ss hs
      change ¬((s :: ss).getLast? == some "") = true
      rw [← hs, List.getLast?_reverse, beq_iff_eq]
      intro hempty
      have hnot := List.head?_dropWhile_not idle p.segments.reverse
      rw [hempty] at hnot
      exact absurd hnot (by decide)
  unfold parent? at hq
  split at hq
  · cases hq
  · cases hq
    exact htrim _

theorem Descends.parent {p q : Path} (h : p.Descends) (hq : p.parent? = some q) : q.Descends := by
  unfold parent? at hq
  split at hq
  · cases hq
  · cases hq
    have htrim := p.trimEnd_subset
    have hlast := trimEnd_subset ⟨p.rooted, p.trimEnd.segments.dropLast⟩
    refine ⟨hlast.1.trans h.unrooted, fun hup => h.straight ?_⟩
    exact htrim.2 (List.dropLast_subset _ (hlast.2 hup))

/-- The name of what a path leads to is its last name. -/
theorem fileName?_last {p : Path} {n : String} (h : p.fileName? = some n) :
    ∃ A, p.names = A ++ [n] ∧ IsName n := by
  have hlast : p.components.getLast? = some (.name n) := by
    unfold fileName? at h
    split at h
    · rename_i s hs
      cases h
      exact hs
    · cases h
  rw [p.components_eq_names] at hlast
  rcases p.names.eq_nil_or_concat with hnil | ⟨A, s, hA⟩
  · rw [hnil, List.map_nil, List.append_nil] at hlast
    split at hlast
    · cases hlast
    · split at hlast <;> cases hlast
  · rw [hA, List.concat_eq_append, List.map_append, List.map_singleton, ← List.append_assoc,
      List.getLast?_concat] at hlast
    have hs : stepOf s = .name n := Option.some.inj hlast
    have hsn : s = n := by rw [← text_stepOf s, hs]; rfl
    subst hsn
    refine ⟨A, by rw [hA, List.concat_eq_append], ?_⟩
    have hidle := (mem_names (p := p) (s := s) (by rw [hA]; simp)).1
    refine isName_of_not_idle hidle ?_
    rintro rfl
    cases hs

theorem fileName?_of_hasExtension {p : Path} {extensions : List String}
    (h : p.hasExtension extensions = true) : ∃ n, p.fileName? = some n := by
  unfold hasExtension extension? at h
  cases hn : p.fileName? with
  | some n => exact ⟨n, rfl⟩
  | none => simp [hn] at h

end Path

namespace Disk

/-! ## 2. Ways that do not go up -/

variable {d d' : Disk} {R : Location}

/-- **Segments that do not go up, and that are no links, lead to what they name.** -/
theorem Way.descends {n : Nat} {follows : Bool} {segments : List String} {G : Location}
    (h : Way d follows n R segments (.found G))
    (hlinks : ∀ l, ∀ s ∈ segments, ∀ t, d.find? (R ++ (l ++ [s])) ≠ some (.link t))
    (hup : ".." ∉ segments) : G = R ++ segments.filter fun s => !Path.idle s := by
  generalize hp : Place.found G = p at h
  induction h with
  | here => cases hp; exact (List.append_nil _).symm
  | @idle n l s rest p hl hs _ ih =>
    rw [List.filter_cons_of_neg (by simp [hs])]
    exact ih (fun k s hs => hlinks k s (List.mem_cons_of_mem _ hs))
      (fun h => hup (List.mem_cons_of_mem _ h)) hp
  | up => exact absurd List.mem_cons_self hup
  | @down n l s rest p e hl hs _ _ _ ih =>
    rw [List.filter_cons_of_pos (by simp [hs.not_idle]), List.append_cons]
    refine ih (fun k s' hs' t hk => ?_) (fun h => hup (List.mem_cons_of_mem _ h)) hp
    rw [List.append_assoc, ← List.append_assoc [s] k] at hk
    exact hlinks _ s' (List.mem_cons_of_mem _ hs') t hk
  | stop _ _ he => exact absurd he (hlinks [] _ List.mem_cons_self _)
  | follow _ _ he => exact absurd he (hlinks [] _ List.mem_cons_self _)
  | gap => cases hp
  | gapSlash => cases hp

/-- The same for what follows a path. -/
theorem Way.descends_below {S T : List String} {G : Location}
    (hR : Way d true mostLinks [] S (.found R))
    (hlinks : ∀ l, ∀ s ∈ T, ∀ t, d.find? (R ++ (l ++ [s])) ≠ some (.link t)) (hup : ".." ∉ T)
    (h : Way d true mostLinks [] (S ++ T) (.found G)) :
    G = R ++ T.filter fun s => !Path.idle s := by
  by_cases hT : T = []
  · subst hT
    rw [List.append_nil] at h
    cases (resolveFrom_eq_ok_iff.mpr h).symm.trans (resolveFrom_eq_ok_iff.mpr hR)
    exact (List.append_nil _).symm
  · obtain ⟨m, _, happend⟩ := hR.append
    have hrest := resolveFrom_eq_ok_iff.mpr h
    rw [happend true T hT, resolveFrom_eq_ok_iff] at hrest
    exact hrest.descends hlinks hup

/-! ## 3. What requests do not add -/

/-- What holds of a disk and survives every new directory and every file that is
written survives every request. -/
theorem answer_keeps {I : Disk → Prop}
    (hfile : ∀ d p content d', I d → d.changeAt p content = .ok d' → I d')
    (hdir : ∀ d p d', I d → d.makeDir p = .ok d' → I d') (d : Disk) (hd : I d) :
    ∀ q : Request, I (d.answer q).2
  | .kind _ | .ownKind _ | .canonical _ | .list _ | .read _ => hd
  | .write _ _ => settle_keeps hd fun _ h => hfile d _ _ _ hd h
  | .append _ _ => settle_keeps hd fun _ h => hfile d _ _ _ hd h
  | .makeDirs p => makeDirs_keeps (fun _ _ _ h h' => hdir _ _ _ h h') d p hd

theorem Named.put (hd : d.Named) {k : Location} {s : String} (hs : Path.IsName s) (e : Entry) :
    (d.put (k ++ [s]) e).Named := by
  intro l t e' he
  rw [find?_put d (by simp)] at he
  split at he
  · rename_i heq
    exact (List.append_singleton_inj.mp heq).2 ▸ hs
  · exact hd l t e' he

theorem answer_named (hd : d.Named) (q : Request) : (d.answer q).2.Named := by
  refine answer_keeps (fun d₁ p content d₂ h hw => ?_) (fun d₁ p d₂ h hm => ?_) d hd q
  · rcases changeAt_cases hw with ⟨k, s, hr, rfl⟩ | ⟨l, c, _, he, rfl⟩
    · exact h.put ((resolve_eq_ok_iff.mp hr).2.gap_inv (.inl rfl)).2.1 _
    · rcases l.eq_nil_or_concat with rfl | ⟨k, s, rfl⟩
      · exact absurd rfl (ne_nil_of_file he)
      · rw [List.concat_eq_append] at he ⊢
        exact h.put (h k s _ he) _
  · obtain ⟨k, s, hr, rfl⟩ := makeDir_cases hm
    rcases hr with hr | hr
    · exact h.put ((resolve_eq_ok_iff.mp hr).2.gap_inv (.inl rfl)).2.1 _
    · exact h.put ((resolve_eq_ok_iff.mp hr).2.gap_inv (.inr rfl)).2.1 _

/-- **No request adds a link.** -/
theorem answer_links (d : Disk) (q : Request) {l : Location} {t : Path}
    (h : (d.answer q).2.find? l = some (.link t)) : d.find? l = some (.link t) := by
  have hput : ∀ {d₁ : Disk} {k : Location} {e : Entry}, k ≠ [] → e.kind ≠ .link →
      (d₁.put k e).find? l = some (.link t) → d₁.find? l = some (.link t) := by
    intro d₁ k e hk he hl
    rw [find?_put d₁ hk] at hl
    split at hl
    · cases hl
      exact absurd rfl he
    · exact hl
  refine answer_keeps (I := fun d₁ => d₁.find? l = some (.link t) → d.find? l = some (.link t))
    (fun d₁ p content d₂ hd₁ hw hl => hd₁ ?_) (fun d₁ p d₂ hd₁ hm hl => hd₁ ?_) d id q h
  · rcases changeAt_cases hw with ⟨k, s, _, rfl⟩ | ⟨k, c, _, he, rfl⟩
    · exact hput (by simp) (by simp [Entry.kind]) hl
    · exact hput (ne_nil_of_file he) (by simp [Entry.kind]) hl
  · obtain ⟨k, s, _, _, rfl⟩ := makeDir_gap hm
    exact hput (by simp) (by simp [Entry.kind]) hl

/-- Where there is something, there are names. -/
theorem Named.isName (hd : d.Named) (hg : d.Grounded) : ∀ {l : Location} {e : Entry},
    d.find? l = some e → ∀ s ∈ l, Path.IsName s := by
  intro l
  induction l using List.reverseRecOn with
  | nil => exact fun _ _ hs => absurd hs List.not_mem_nil
  | append_singleton l s ih =>
    intro e he t ht
    rcases List.mem_append.mp ht with ht | ht
    · exact ih (hg l s e he) t ht
    · exact List.mem_singleton.mp ht ▸ hd l s e he

/-- What a path leads to is there. -/
theorem Way.there (hd : d.Grounded) {n : Nat} {follows : Bool} {l G : Location}
    {segments : List String} (h : Way d follows n l segments (.found G))
    (hl : ∃ e, d.find? l = some e) : ∃ e, d.find? G = some e := by
  generalize hp : Place.found G = p at h
  induction h with
  | here => cases hp; exact hl
  | idle _ _ _ ih => exact ih hl hp
  | @up n l rest p hdir _ ih =>
    refine ih ?_ hp
    rcases l.eq_nil_or_concat with rfl | ⟨l', s, rfl⟩
    · exact ⟨_, find?_nil d⟩
    · rw [List.concat_eq_append, List.dropLast_concat]
      rw [List.concat_eq_append] at hdir
      exact ⟨_, hd l' s _ hdir⟩
  | down _ _ he _ _ ih => exact ih ⟨_, he⟩ hp
  | stop _ _ he => cases hp; exact ⟨_, he⟩
  | @follow n l s rest p t hdir _ _ _ _ ih =>
    refine ih ?_ hp
    split
    · exact ⟨_, find?_nil d⟩
    · exact ⟨_, hdir⟩
  | gap => cases hp
  | gapSlash => cases hp

/-- The canonical path of something is made of names. -/
theorem canonical_names (hd : d.Named) (hg : d.Grounded) (p : Path) :
    (d.answer (.canonical p)).1 = none ∨
      ∃ l, (d.answer (.canonical p)).1 = some (pathOf l) ∧ ∀ s ∈ l, Path.IsName s := by
  rw [answer]
  dsimp only
  split
  · rename_i l hl
    rw [locate_eq_ok_iff, resolve_eq_ok_iff] at hl
    obtain ⟨e, he⟩ := hl.2.there hg ⟨_, find?_nil d⟩
    exact .inr ⟨l, rfl, hd.isName hg he⟩
  · exact .inl rfl

end Disk

/-! ## 4. Projects that stand -/

/-- The root of the project is a directory, and whatever there is lies in a directory
and has a name. -/
structure Founded (P : Project) (R : Location) (d : Disk) : Prop where
  grounded : d.Grounded
  named : d.Named
  /-- The root has a text. -/
  steps : P.root.components ≠ []
  root : d.locate true (P.absolute Path.empty) = .ok R
  directory : d.find? R = some .directory

/-- Besides, there are no links below the root. -/
structure Stands (P : Project) (R : Location) (d : Disk) : Prop extends Founded P R d where
  linkless : ∀ l t, d.find? (R ++ l) ≠ some (.link t)

variable {P : Project} {R G : Location} {d d' : Disk} {p : Path}

theorem Founded.answer (h : Founded P R d) (q : Request) : Founded P R (d.answer q).2 where
  grounded := Disk.answer_grounded h.grounded q
  named := Disk.answer_named h.named q
  steps := h.steps
  root := Disk.locate_grows (d.answer_grows q) h.root
  directory := (d.answer_grows q).directory h.directory

theorem Stands.answer (h : Stands P R d) (q : Request) : Stands P R (d.answer q).2 where
  toFounded := h.toFounded.answer q
  linkless := fun l t hl => h.linkless l t (d.answer_links q hl)

/-- **Whatever is asked, a project stays founded.** -/
theorem Founded.reached (h : Founded P R d) (hr : d.Reaches d') : Founded P R d' :=
  hr.keeps (fun _ q hd => hd.answer q) h

/-- The way to the root of a project, and on from there. -/
theorem Founded.way (h : Founded P R d) : (P.absolute Path.empty).text ≠ "" ∧
    Disk.Way d true Disk.mostLinks [] (Path.openEnd P.root.segments) (.found R) := by
  have hsegments : (P.absolute Path.empty).segments = Path.openEnd P.root.segments :=
    List.append_nil _
  have hroot := h.root
  rw [Disk.locate_eq_ok_iff, Disk.resolve_eq_ok_iff, hsegments] at hroot
  exact hroot

theorem absolute_unrooted (P : Project) (hp : p.rooted = false) : P.absolute p =
    ⟨P.root.rooted, Path.openEnd P.root.segments ++ p.segments⟩ := by
  unfold Project.absolute Path.join
  rw [if_neg (by simp [hp])]

/-- **A relative path that does not go up leads to what it names below the
root.** -/
theorem Stands.locate_eq (h : Stands P R d) (hp : p.Descends)
    (hG : d.locate true (P.absolute p) = .ok G) : G = R ++ p.names := by
  rw [Disk.locate_eq_ok_iff, Disk.resolve_eq_ok_iff, absolute_unrooted P hp.unrooted] at hG
  exact Disk.Way.descends_below h.way.2 (fun l s _ => h.linkless (l ++ [s])) hp.straight hG.2

theorem absolute_ne_empty (h : Founded P R d) {A : List String}
    (hA : ∀ s ∈ A, Path.idle s = false) : (P.absolute ⟨false, A⟩).text ≠ "" := by
  by_cases hne : A = []
  · subst hne
    exact h.way.1
  · exact Path.absolute_text P (p := ⟨false, A⟩) hA hne

/-- Where a path goes on to something, it leads to a directory. -/
theorem Founded.above (h : Founded P R d) {A B : List String} {k : EntryKind}
    (hA : ∀ s ∈ A, Path.idle s = false) (hB : B ≠ [])
    (hkind : d.kindAt true (P.absolute ⟨false, A ++ B⟩) = some k) :
    d.kindAt true (P.absolute ⟨false, A⟩) = some .directory := by
  have htext := absolute_ne_empty h hA
  rw [absolute_unrooted P rfl] at htext hkind ⊢
  rw [← List.append_assoc] at hkind
  exact Disk.kindAt_directory htext hB hkind

/-- **A path that goes on with names, which no links have, leads on to what has these
names**, wherever it led before. -/
theorem Founded.located_below (h : Founded P R d) {A L : List String}
    (hlinks : ∀ l, ∀ s ∈ L, ∀ t, d.find? (l ++ [s]) ≠ some (.link t))
    (hA : ∀ s ∈ A, Path.idle s = false) (hL : ∀ s ∈ L, Path.IsName s) (hne : L ≠ [])
    (hG : d.locate true (P.absolute ⟨false, A ++ L⟩) = .ok G) :
    ∃ K, d.locate true (P.absolute ⟨false, A⟩) = .ok K ∧ d.find? K = some .directory ∧
      G = K ++ L := by
  obtain ⟨s, L', rfl⟩ := List.exists_cons_of_ne_nil hne
  rw [Disk.locate_eq_ok_iff, Disk.resolve_eq_ok_iff, absolute_unrooted P rfl] at hG
  change _ ∧ Disk.Way d true _ [] (Path.openEnd P.root.segments ++ (A ++ s :: L')) _ at hG
  rw [← List.append_assoc] at hG
  obtain ⟨K, hK⟩ := hG.2.concat_inv hne (.inr fun _ _ => by simp)
  obtain ⟨m, _, happend⟩ := hK.append
  have hrest := Disk.resolveFrom_eq_ok_iff.mpr hG.2
  rw [happend true (s :: L') hne, Disk.resolveFrom_eq_ok_iff] at hrest
  refine ⟨K, ?_, hrest.directory, ?_⟩
  · rw [Disk.locate_eq_ok_iff, Disk.resolve_eq_ok_iff]
    refine ⟨absolute_ne_empty h hA, ?_⟩
    rw [absolute_unrooted P rfl]
    exact hK
  · have hnames : (s :: L').filter (fun t => !Path.idle t) = s :: L' :=
      List.filter_eq_self.mpr fun t ht => by simp [(hL t ht).not_idle]
    rw [← hnames]
    refine hrest.descends (fun l s hs t hl => ?_) fun hup => (hL ".." hup).2.2 rfl
    rw [← List.append_assoc] at hl
    exact hlinks _ s hs t hl

/-! ## 5. Paths of a project -/

/-- The last components of a path are segments of it, but for the beginning. -/
theorem plain_drop {n : Nat} (p : Path) (hn : 0 < n ∨ p.rooted = false) :
    ∃ L, Project.plain (p.components.drop n) = ⟨false, L⟩ ∧
      ∀ s ∈ L, Path.idle s = false ∧ s ∈ p.segments := by
  have hdrop : ∀ k, ∃ L, Project.plain ((p.names.map Path.stepOf).drop k) = ⟨false, L⟩ ∧
      ∀ s ∈ L, Path.idle s = false ∧ s ∈ p.segments := by
    intro k
    refine ⟨p.names.drop k, ?_, fun s hs => Path.mem_names (List.mem_of_mem_drop hs)⟩
    rw [← List.map_drop]
    exact Path.plain_stepOf fun s hs => (Path.mem_names (List.mem_of_mem_drop hs)).1
  rw [p.components_eq_names]
  split
  · rename_i hr
    obtain ⟨m, rfl⟩ := Nat.exists_eq_succ_of_ne_zero
      (Nat.pos_iff_ne_zero.mp (hn.resolve_right (by simp [hr])))
    exact hdrop m
  · split
    · cases n with
      | zero =>
        rw [List.drop_zero, List.singleton_append, Path.plain_cons_here]
        exact hdrop 0
      | succ n => exact hdrop n
    · exact hdrop n

theorem relative_isReads (P : Project) (p : Path) : (P.relative p).Reads := by
  have hcanonical : ∀ q, (Job.canonical q).Reads :=
    fun q => Job.reads_ask trivial fun _ => Job.reads_pure _
  unfold Project.relative
  split
  · refine (hcanonical P.root).seq fun root => (hcanonical p).seq fun target => ?_
    split
    · exact Job.reads_pure _
    · exact Job.reads_fail _
  · exact Job.reads_pure _

/-- A relative path is found by its names. -/
theorem relative_unrooted (P : Project) (hp : p.rooted = false) :
    P.relative p = pure ⟨false, p.names⟩ := by
  have hkept : ∀ s ∈ p.names, Path.idle s = false := p.names_neat
  have hplain : Project.plain p.components = ⟨false, p.names⟩ := by
    rw [p.components_eq_names, if_neg (by simp [hp])]
    split
    · rw [List.singleton_append, Path.plain_cons_here, Path.plain_stepOf hkept]
    · rw [List.nil_append, Path.plain_stepOf hkept]
  unfold Project.relative
  rw [if_neg (by simp [hp]), hplain]

/-- **The path in a project of what a user writes**: a relative one, whose
segments are names on the disk or segments that the user wrote. -/
theorem Founded.relative (h : Founded P R d) (input : Path) :
    (P.relative input).Ends (fun rel _ => ∃ L, rel = ⟨false, L⟩ ∧
      ∀ s ∈ L, Path.idle s = false ∧ (Path.IsName s ∨ s ∈ input.segments)) (fun _ _ => True) d := by
  by_cases hr : input.rooted = true
  · -- the canonical root has steps as well, and the target is the input or made of names
    have hroot : 0 < ((d.answer (.canonical P.root)).1.getD P.root).components.length := by
      rcases Disk.canonical_names h.named h.grounded P.root with hroot | ⟨l, hroot, _⟩
      · rw [hroot]
        exact List.length_pos_iff.mpr h.steps
      · rw [hroot]
        simp [Path.components, Disk.pathOf]
    have htarget : ∀ s ∈ ((d.answer (.canonical input)).1.getD input).segments,
        Path.IsName s ∨ s ∈ input.segments := by
      rcases Disk.canonical_names h.named h.grounded input with hinput | ⟨l, hinput, hl⟩
      · rw [hinput]
        exact fun s hs => .inr hs
      · rw [hinput]
        exact fun s hs => .inl (hl s hs)
    have hbelow : ∀ {q base : Path} {steps : List Path.Component}, 0 < base.components.length →
        (∀ s ∈ q.segments, Path.IsName s ∨ s ∈ input.segments) →
        q.stepsBelow? base = some steps → ∃ L, Project.plain steps = ⟨false, L⟩ ∧
          ∀ s ∈ L, Path.idle s = false ∧ (Path.IsName s ∨ s ∈ input.segments) := by
      intro q base steps hbase hq hsteps
      unfold Path.stepsBelow? at hsteps
      split at hsteps
      · cases hsteps
        obtain ⟨L, hL, hkept⟩ := plain_drop q (.inl hbase)
        exact ⟨L, hL, fun s hs => ⟨(hkept s hs).1, hq s (hkept s hs).2⟩⟩
      · cases hsteps
    unfold Project.relative
    rw [if_pos hr, Job.ends_seq, Job.ends_canonical, Job.ends_seq, Job.ends_canonical]
    split
    · rename_i steps hsome
      rcases Option.or_eq_some_iff.mp hsome with hsome | ⟨_, hsome⟩
      · exact hbelow hroot htarget hsome
      · exact hbelow (List.length_pos_iff.mpr h.steps) (fun s hs => .inr hs) hsome
    · trivial
  · rw [relative_unrooted P (by simpa using hr)]
    refine ⟨input.names, rfl, fun s hs => ?_⟩
    exact ⟨(Path.mem_names hs).1, .inr (Path.mem_names hs).2⟩

end Scaffold
