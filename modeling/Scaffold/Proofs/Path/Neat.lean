import Scaffold.Proofs.Job.Runs
import Scaffold.Tests

/-!
# Paths without idle segments

A path is neat when each of its segments is a step. Such paths are lists of
steps in all respects: `child` adds one at the end, `parent?` takes it away,
`components` and `walk` read and write them one for one.

* `relative_neat` -- **a path of a project is neat**;
* `relocate_names`, `testRootOf_names` -- the test directory that belongs to a
  source directory, and the root of the tests above it.
-/
namespace Scaffold.Path

/-- Each segment of the path is a step. -/
def Neat (p : Path) : Prop := ∀ s ∈ p.segments, idle s = false

theorem Neat.mk_append {r : Bool} {L : List String} {s : String} (hL : ∀ t ∈ L, idle t = false)
    (hs : idle s = false) : (⟨r, L ++ [s]⟩ : Path).Neat := by
  intro t ht
  rcases List.mem_append.mp ht with ht | ht
  · exact hL t ht
  · rw [List.mem_singleton.mp ht]
    exact hs

theorem idle_empty : idle "" = true := rfl

theorem idle_dot : idle "." = true := rfl

@[simp] theorem text_stepOf (s : String) : (stepOf s).text = s := by
  unfold stepOf
  split
  · rename_i h
    rw [(by simpa using h : s = "..")]
    rfl
  · rfl

theorem stepOf_name {s : String} (h : IsName s) : stepOf s = .name s := by
  unfold stepOf
  rw [if_neg (by simpa using h.2.2)]

/-- The last step of a path is its last name. -/
theorem fileName?_concat {r : Bool} {S : List String} {n : String} (hn : IsName n) :
    (⟨r, S ++ [n]⟩ : Path).fileName? = some n := by
  unfold fileName? components
  rw [List.filter_append, List.filter_cons_of_pos (by simp [hn.not_idle]), List.filter_nil,
    List.map_append, List.map_singleton, ← List.append_assoc, List.getLast?_concat,
    stepOf_name hn]

/-- The extension of a path that goes on with a name is that of the name. -/
theorem hasExtension_child {p : Path} {n : String} {extensions : List String} (hn : IsName n) :
    (p.child n).hasExtension extensions = true ↔ ∃ e ∈ extensions, (cutName n).2 = some e := by
  have hname : (p.child n).fileName? = some n := fileName?_concat hn
  unfold hasExtension extension?
  rw [hname, Option.bind_some]
  split
  · rename_i e he
    simp [he]
  · rename_i he
    simp [he]

@[simp] theorem step_stepOf (p : Path) (s : String) : p.step (stepOf s) = p.child s := by
  unfold stepOf
  split
  · rename_i h
    rw [(by simpa using h : s = "..")]
    rfl
  · rfl

theorem stepOf_ne_here (s : String) : stepOf s ≠ .here := by
  unfold stepOf
  split <;> simp

/-! ## 1. Steps -/

theorem Neat.beginsHere {p : Path} (h : p.Neat) : p.beginsHere = false := by
  unfold Path.beginsHere
  cases hs : p.segments.head? with
  | none => simp
  | some s =>
    have hmem : s ∈ p.segments := List.mem_of_head? hs
    have : s ≠ "." := by
      rintro rfl
      simpa [idle_dot] using h _ hmem
    simp [this]

theorem Neat.components {p : Path} (h : p.Neat) :
    p.components = (if p.rooted then [.root] else []) ++ p.segments.map stepOf := by
  unfold Path.components
  rw [h.beginsHere, List.filter_eq_self.mpr fun s hs => by simp [h s hs]]
  rfl

/-- The texts of the steps are the segments. -/
theorem Neat.texts {L : List String} (h : (⟨false, L⟩ : Path).Neat) :
    (⟨false, L⟩ : Path).components.map Component.text = L := by
  rw [h.components]
  change (L.map stepOf).map Component.text = L
  rw [List.map_map]
  exact List.map_id'' text_stepOf L

/-- The steps of a path of names. -/
theorem components_names {L : List String} (hL : ∀ s ∈ L, IsName s) :
    (⟨false, L⟩ : Path).components = L.map .name := by
  rw [Neat.components fun s hs => (hL s hs).not_idle]
  exact List.map_congr_left fun s hs => stepOf_name (hL s hs)

theorem startsWith_names {L T : List String} (hL : ∀ s ∈ L, IsName s) (hT : ∀ s ∈ T, IsName s) :
    (⟨false, L⟩ : Path).startsWith ⟨false, T⟩ = true ↔ T <+: L := by
  unfold Path.startsWith
  rw [components_names hL, components_names hT, List.isPrefixOf_iff_prefix]
  exact List.prefix_map_iff_of_injective fun _ _ h => Component.name.inj h

theorem same_names {L T : List String} (hL : ∀ s ∈ L, IsName s) (hT : ∀ s ∈ T, IsName s) :
    (⟨false, L⟩ : Path).same ⟨false, T⟩ = true ↔ L = T := by
  unfold Path.same
  rw [components_names hL, components_names hT, beq_iff_eq]
  exact List.map_inj_right fun _ _ h => Component.name.inj h

theorem openEnd_eq_self {L : List String} (h : ∀ s ∈ L, idle s = false) : openEnd L = L := by
  unfold openEnd
  split
  · rename_i hlast
    have hmem : "" ∈ L := List.mem_of_getLast? (by simpa using hlast)
    simpa [idle_empty] using h _ hmem
  · rfl

theorem Neat.child {p : Path} (h : p.Neat) (s : String) :
    p.child s = ⟨p.rooted, p.segments ++ [s]⟩ := by
  unfold Path.child join
  rw [if_neg (by simp), openEnd_eq_self h]

theorem child_neat {p : Path} (h : p.Neat) {s : String} (hs : idle s = false) :
    (p.child s).Neat := by
  rw [h.child]
  exact Neat.mk_append h hs

theorem Neat.trimEnd {p : Path} (h : p.Neat) : p.trimEnd = p := by
  obtain ⟨r, L⟩ := p
  unfold Path.trimEnd
  rcases L.eq_nil_or_concat with rfl | ⟨L', s, rfl⟩
  · rw [h.beginsHere]
    rfl
  · have hs : idle s = false := h s (by simp)
    have hdrop : ((L'.concat s).reverse.dropWhile idle).reverse = L'.concat s := by
      simp [hs]
    simp only [hdrop]
    cases hc : L'.concat s with
    | nil => simp at hc
    | cons t ts => rfl

theorem Neat.parent? {r : Bool} {L : List String} {s : String}
    (h : (⟨r, L ++ [s]⟩ : Path).Neat) : (⟨r, L ++ [s]⟩ : Path).parent? = some ⟨r, L⟩ := by
  have hL : (⟨r, L⟩ : Path).Neat := fun t ht => h t (List.mem_append_left _ ht)
  unfold Path.parent?
  rw [h.trimEnd, if_neg (by simp), List.dropLast_concat, hL.trimEnd]

theorem Neat.fileName? {r : Bool} {L : List String} {s : String}
    (h : (⟨r, L ++ [s]⟩ : Path).Neat) (hs : s ≠ "..") :
    (⟨r, L ++ [s]⟩ : Path).fileName? = some s := by
  have hstep : stepOf s = .name s := by
    unfold stepOf
    rw [if_neg (by simpa using hs)]
  unfold Path.fileName?
  rw [h.components, List.map_append, List.map_singleton, ← List.append_assoc,
    List.getLast?_concat, hstep]

theorem Neat.walk {p : Path} (h : p.Neat) {L : List String} (hL : ∀ s ∈ L, idle s = false) :
    p.walk (L.map stepOf) = ⟨p.rooted, p.segments ++ L⟩ := by
  induction L generalizing p with
  | nil => simp [Path.walk]
  | cons s L ih =>
    have hs : idle s = false := hL s List.mem_cons_self
    have hstep : p.walk ((s :: L).map stepOf) = (p.child s).walk (L.map stepOf) := by
      simp [Path.walk]
    rw [hstep, ih (child_neat h hs) fun t ht => hL t (List.mem_cons_of_mem s ht), h.child]
    simp

/-- The components of a path, as segments. -/
theorem components_eq (p : Path) : ∃ (start : List Component) (L : List String), p.components = start ++ L.map stepOf ∧
    (∀ s ∈ L, idle s = false) ∧
      (start = [] ∨ (start = [.here] ∧ p.rooted = false) ∨ (start = [.root] ∧ p.rooted = true)) := by
  refine ⟨_, p.segments.filter fun s => !idle s, rfl, fun s hs => ?_, ?_⟩
  · simpa using (List.mem_filter.mp hs).2
  · by_cases hr : p.rooted = true
    · exact .inr (.inr ⟨by simp [hr], hr⟩)
    · have hr : p.rooted = false := by simpa using hr
      by_cases hb : p.beginsHere = true
      · exact .inr (.inl ⟨by simp [hr, hb], hr⟩)
      · exact .inl (by simp [hr, hb])

/-! ## 2. Paths of a project -/

theorem plain_stepOf {L : List String} (hL : ∀ s ∈ L, idle s = false) :
    Project.plain (L.map stepOf) = ⟨false, L⟩ := by
  unfold Project.plain
  rw [List.filter_eq_self.mpr]
  · rw [Neat.walk (p := Path.empty) (by simp [Neat, Path.empty]) hL]
    rfl
  · intro c hc
    obtain ⟨s, _, rfl⟩ := List.mem_map.mp hc
    simpa using stepOf_ne_here s

theorem plain_cons_here (steps : List Component) :
    Project.plain (.here :: steps) = Project.plain steps := by
  unfold Project.plain
  rw [List.filter_cons_of_neg (by simp)]

theorem plain_root {L : List String} (hL : ∀ s ∈ L, idle s = false) :
    Project.plain (.root :: L.map stepOf) = ⟨true, L⟩ := by
  unfold Project.plain
  rw [List.filter_eq_self.mpr]
  · change Path.root.walk (L.map stepOf) = _
    rw [Neat.walk (p := Path.root) (by simp [Neat, Path.root]) hL]
    rfl
  · intro c hc
    rcases List.mem_cons.mp hc with rfl | hc
    · simp
    · obtain ⟨s, _, rfl⟩ := List.mem_map.mp hc
      simpa using stepOf_ne_here s

/-- The last components of a path make a neat path. -/
theorem plain_drop_neat (p : Path) (n : Nat) : (Project.plain (p.components.drop n)).Neat := by
  obtain ⟨start, L, hc, hL, hstart⟩ := p.components_eq
  have hdrop : ∀ k, (Project.plain ((L.map stepOf).drop k)).Neat := by
    intro k
    rw [← List.map_drop, plain_stepOf fun s hs => hL s (List.mem_of_mem_drop hs)]
    exact fun s hs => hL s (List.mem_of_mem_drop hs)
  rw [hc]
  rcases hstart with rfl | ⟨rfl, _⟩ | ⟨rfl, _⟩
  · exact hdrop n
  · cases n with
    | zero =>
      rw [List.drop_zero, List.singleton_append, plain_cons_here]
      exact hdrop 0
    | succ n => exact hdrop n
  · cases n with
    | zero =>
      rw [List.drop_zero, List.singleton_append, plain_root hL]
      exact hL
    | succ n => exact hdrop n

/-- **A path of a project is neat**, and finding it changes nothing. -/
theorem relative_neat (P : Project) (p : Path) (d : Disk) :
    (P.relative p).Ends (fun q d' => q.Neat ∧ d' = d) (fun _ d' => d' = d) d := by
  have hbelow : ∀ {q base : Path} {steps : List Component}, q.stepsBelow? base = some steps →
      (Project.plain steps).Neat := by
    intro q base steps h
    unfold stepsBelow? at h
    split at h
    · cases h
      exact plain_drop_neat q _
    · cases h
  unfold Project.relative
  split
  · rw [Job.ends_seq, Job.ends_canonical, Job.ends_seq, Job.ends_canonical]
    split
    · rename_i steps hsteps
      rcases Option.or_eq_some_iff.mp hsteps with h | ⟨_, h⟩
      · exact ⟨hbelow h, rfl⟩
      · exact ⟨hbelow h, rfl⟩
    · rfl
  · exact ⟨plain_drop_neat p 0, rfl⟩

/-- A path of names, however it is spelled, is found as these names. -/
theorem relative_names (P : Project) {p : Path} {names : List String}
    (hnames : ∀ s ∈ names, IsName s) (hr : p.rooted = false)
    (hp : p.components = names.map .name) : P.relative p = pure ⟨false, names⟩ := by
  have hsteps : p.components = names.map stepOf := by
    rw [hp]
    exact List.map_congr_left fun s hs => (stepOf_name (hnames s hs)).symm
  unfold Project.relative
  rw [if_neg (by simp [hr]), hsteps, plain_stepOf fun s hs => (hnames s hs).not_idle]

/-! ## 3. Test directories -/

theorem relocateFrom_stepOf {sourceDir : String} {target : Path} :
    ∀ (L : List String) {done q : Path},
      relocateFrom sourceDir target done (L.map stepOf) = some q → ∃ A B, L = A ++ sourceDir :: B ∧
        q = ((done.walk (A.map stepOf)).join target).walk (B.map stepOf)
  | [], done, q, h => by cases h
  | s :: L, done, q, h => by
      rw [List.map_cons, relocateFrom] at h
      split at h
      · rename_i hs
        have hs : s = sourceDir := by
          have := congrArg Component.text (by simpa using hs : stepOf s = .name sourceDir)
          rwa [text_stepOf] at this
        cases h
        exact ⟨[], L, by rw [hs]; rfl, rfl⟩
      · obtain ⟨A, B, rfl, rfl⟩ := relocateFrom_stepOf L h
        exact ⟨s :: A, B, rfl, by simp [Path.walk]⟩

/-- In a neat path the segment that names the source directory is replaced. -/
theorem Neat.relocate {p q : Path} (h : p.Neat) {sourceDir : String} {T : List String}
    (hT : ∀ s ∈ T, idle s = false) (hq : relocate p sourceDir ⟨false, T⟩ = .ok q) :
    ∃ A B, p.segments = A ++ sourceDir :: B ∧ q = ⟨p.rooted, A ++ T ++ B⟩ := by
  -- the walk behind the root, if the path has one
  have hwalk : ∀ done : Path, done.segments = [] →
      relocateFrom sourceDir ⟨false, T⟩ done (p.segments.map stepOf) = some q →
      ∃ A B, p.segments = A ++ sourceDir :: B ∧ q = ⟨done.rooted, A ++ T ++ B⟩ := by
    intro done hdone hq
    obtain ⟨A, B, hp, rfl⟩ := relocateFrom_stepOf _ hq
    have hA : ∀ s ∈ A, idle s = false := fun s hs => h s (by rw [hp]; simp [hs])
    have hB : ∀ s ∈ B, idle s = false := fun s hs => h s (by rw [hp]; simp [hs])
    have hdoneNeat : done.Neat := by simp [Neat, hdone]
    refine ⟨A, B, hp, ?_⟩
    rw [hdoneNeat.walk hA, hdone, List.nil_append]
    have hjoin : (⟨done.rooted, A⟩ : Path).join ⟨false, T⟩ = ⟨done.rooted, A ++ T⟩ := by
      unfold join
      rw [if_neg (by simp), openEnd_eq_self hA]
    rw [hjoin]
    refine Neat.walk (p := ⟨done.rooted, A ++ T⟩) (fun s hs => ?_) hB
    rcases List.mem_append.mp hs with hs | hs
    · exact hA s hs
    · exact hT s hs
  unfold Scaffold.relocate at hq
  split at hq
  · rename_i q' hq'
    cases hq
    rw [h.components] at hq'
    by_cases hr : p.rooted = true
    · rw [if_pos hr, List.singleton_append, relocateFrom, if_neg (by simp)] at hq'
      obtain ⟨A, B, hp, hq⟩ := hwalk (Path.empty.step .root) rfl hq'
      exact ⟨A, B, hp, by rw [hq, hr]; rfl⟩
    · rw [if_neg hr, List.nil_append] at hq'
      obtain ⟨A, B, hp, hq⟩ := hwalk Path.empty rfl hq'
      exact ⟨A, B, hp, by rw [hq, (by simpa using hr : p.rooted = false)]; rfl⟩
  · cases hq

theorem tests_neat : ∀ s ∈ ["tests", "ut"], IsName s := by decide

/-- A test directory is a neat path, and not the empty one. -/
theorem testDir_neat {p q : Path} (h : p.Neat) {sourceDir : String}
    (hq : relocate p sourceDir testsDir = .ok q) : q.Neat ∧ q.segments ≠ [] := by
  obtain ⟨A, B, hp, rfl⟩ := h.relocate (fun s hs => (tests_neat s hs).not_idle) hq
  refine ⟨fun s hs => ?_, by simp⟩
  rcases List.mem_append.mp hs with hs | hs
  · rcases List.mem_append.mp hs with hs | hs
    · exact h s (by rw [hp]; simp [hs])
    · exact (tests_neat s hs).not_idle
  · exact h s (by rw [hp]; simp [hs])

/-- The source directory at the beginning of a path is replaced. -/
theorem relocate_names {sourceDir : String} (hs : IsName sourceDir) {T M : List String}
    (hT : ∀ s ∈ T, IsName s) (hM : ∀ s ∈ M, IsName s) :
    relocate ⟨false, sourceDir :: M⟩ sourceDir ⟨false, T⟩ = .ok ⟨false, T ++ M⟩ := by
  have hneat : (⟨false, sourceDir :: M⟩ : Path).Neat := by
    intro s hs'
    rcases List.mem_cons.mp hs' with rfl | hs'
    · exact hs.not_idle
    · exact (hM s hs').not_idle
  have hfrom : relocateFrom sourceDir ⟨false, T⟩ Path.empty
      (⟨false, sourceDir :: M⟩ : Path).components = some ⟨false, T ++ M⟩ := by
    rw [hneat.components]
    change relocateFrom sourceDir ⟨false, T⟩ Path.empty (stepOf sourceDir :: M.map stepOf) = _
    rw [relocateFrom, stepOf_name hs, if_pos (by simp)]
    congr 1
    change (⟨false, T⟩ : Path).walk (M.map stepOf) = _
    exact Neat.walk (p := ⟨false, T⟩) (fun s hs => (hT s hs).not_idle) fun s hs => (hM s hs).not_idle
  unfold Scaffold.relocate
  rw [hfrom]

/-- The ancestors of a path of names are its beginnings. -/
theorem ancestors_concat {r : Bool} {L : List String} {s : String}
    (h : (⟨r, L ++ [s]⟩ : Path).Neat) :
    (⟨r, L ++ [s]⟩ : Path).ancestors = ⟨r, L ++ [s]⟩ :: (⟨r, L⟩ : Path).ancestors := by
  rw [ancestors]
  split
  · rename_i hnone
    rw [h.parent?] at hnone
    cases hnone
  · rename_i q hq
    rw [h.parent?] at hq
    cases hq
    rfl

/-- **The root of the tests above a test directory.** -/
theorem testRootOf_names {M : List String} (hM : ∀ s ∈ M, IsName s) :
    Tests.testRootOf ⟨false, ["tests", "ut"] ++ M⟩ = testsDir := by
  have hlast : (((⟨false, ["tests", "ut"] ++ M⟩ : Path).ancestors.filter
      (·.endsWith testsDir)).getLast?) = some testsDir := by
    induction hn : M.length generalizing M with
    | zero =>
      rw [List.length_eq_zero_iff.mp hn]
      decide +kernel
    | succ n ih =>
      rcases M.eq_nil_or_concat with rfl | ⟨M', s, rfl⟩
      · simp at hn
      · rw [List.concat_eq_append] at hM hn ⊢
        have hneat : (⟨false, (["tests", "ut"] ++ M') ++ [s]⟩ : Path).Neat := by
          intro t ht
          rw [List.append_assoc] at ht
          rcases List.mem_append.mp ht with ht | ht
          · exact (tests_neat t ht).not_idle
          · exact (hM t ht).not_idle
        have ih' := ih (fun t ht => hM t (List.mem_append_left _ ht)) (by simpa using hn)
        rw [← List.append_assoc, ancestors_concat hneat, List.filter_cons]
        split
        · rw [List.getLast?_cons, ih']
          rfl
        · exact ih'
  unfold Tests.testRootOf
  rw [hlast]
  rfl

/-! ## 4. Paths from the root of the disk -/

theorem text_ne_empty {p : Path} {s : String} (hs : s ∈ p.segments) (hne : s ≠ "") :
    p.text ≠ "" := by
  have hlist : ∀ L : List String, s ∈ L → "/".intercalate L ≠ "" := by
    intro L
    induction L with
    | nil => intro hs; cases hs
    | cons t L ih =>
      intro hs
      by_cases hL : L = []
      · subst hL
        rw [List.mem_singleton.mp hs] at hne
        rwa [String.intercalate_singleton]
      · rw [String.intercalate_cons_of_ne_nil hL]
        simp
  unfold text
  have := hlist p.segments hs
  simp [this]

theorem absolute_text (P : Project) {p : Path} (h : p.Neat) (hne : p.segments ≠ []) :
    (P.absolute p).text ≠ "" := by
  obtain ⟨s, hs⟩ := List.exists_mem_of_ne_nil _ hne
  have hmem : s ∈ (P.absolute p).segments := by
    unfold Project.absolute join
    split
    · exact hs
    · exact List.mem_append_right _ hs
  refine text_ne_empty hmem ?_
  rintro rfl
  simpa [idle_empty] using h "" hs

/-- What follows the last step of a path stands right behind it. -/
theorem absolute_concat (P : Project) {p : Path} (h : p.Neat) (s : String) :
    P.absolute (p.child s) =
      ⟨(P.absolute p).rooted, (P.absolute p).segments ++ [s]⟩ := by
  rw [h.child]
  unfold Project.absolute join
  split
  · rfl
  · rw [List.append_assoc]

theorem absolute_child (P : Project) {p : Path} (h : p.Neat) (hne : p.segments ≠ [])
    (s : String) : (P.absolute p).child s = P.absolute (p.child s) := by
  obtain ⟨L, t, hL⟩ : ∃ L t, p.segments = L ++ [t] := by
    rcases p.segments.eq_nil_or_concat with hnil | ⟨L, t, hL⟩
    · exact absurd hnil hne
    · exact ⟨L, t, by rw [hL, List.concat_eq_append]⟩
  have ht : t ≠ "" := by
    rintro rfl
    simpa [idle_empty] using h "" (by simp [hL])
  have hopen : openEnd (P.absolute p).segments = (P.absolute p).segments := by
    have hlast : (P.absolute p).segments.getLast? = some t := by
      unfold Project.absolute join
      split
      · rw [hL, List.getLast?_concat]
      · dsimp only
        rw [hL, ← List.append_assoc, List.getLast?_concat]
    unfold openEnd
    rw [hlast, if_neg (by simpa using ht)]
  rw [absolute_concat P h, Path.child, join, if_neg (by simp), hopen]

end Scaffold.Path
