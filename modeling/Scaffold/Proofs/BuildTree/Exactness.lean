import Mathlib.Data.List.Nodup
import Scaffold.Proofs.BuildTree.Layout

/-!
# Lists that declare just the lists below them

The lists of a test tree, seen as a map from directories to what their lists
hold.

* `Tidy` -- a text in which both ways of reading agree about every name;
* `Exact` -- the list of a directory declares a child **if and only if** the child
  has a list;
* `Wired` -- what is left of this while a directory is registered: the directory
  that was reached last may not be declared yet. `Wired.declare`: a step up keeps
  it;
* `registerChain_wired`, `writeLeaf_exact` -- **registering a directory and then
  writing its list keeps the lists exact**.
-/
namespace Scaffold.BuildTree

open Artifact (BuildList)
open Artifact.BuildList (Shows declarations Declarable)

/-! ## 1. Texts -/

/-- The lines of a text declare each of its children once, and the declarations
of just these show. -/
structure Tidy (t : String) : Prop where
  nodup : (declarations t.toList).Nodup
  declarable : ∀ c ∈ declarations t.toList, Declarable c
  shows : ∀ c, Declarable c → (Shows t.toList c ↔ c ∈ declarations t.toList)

variable {child new : String} {old : Option String}

/-- **A declared child is added to a tidy text**, unless it is there. -/
theorem Declares.tidy (h : Declares child old new) (hc : Declarable child)
    (hold : ∀ t ∈ old, Tidy t) : Tidy new ∧ ∀ x, x ∈ declarations new.toList ↔
      x = child ∨ ∃ t ∈ old, x ∈ declarations t.toList := by
  cases h with
  | shown t hshows =>
    have ht : Tidy new := hold new rfl
    have hmem : child ∈ declarations new.toList := (ht.shows child hc).mp hshows
    refine ⟨ht, fun x => ⟨fun hx => .inr ⟨new, rfl, hx⟩, ?_⟩⟩
    rintro (rfl | ⟨t, ht', hx⟩)
    · exact hmem
    · cases ht'
      exact hx
  | appended t hnot =>
    have ht : Tidy t := hold t rfl
    have hlines : declarations (BuildList.extended t child).toList =
        declarations t.toList ++ [child] := BuildList.declarations_extended hc.1 hc.2.2 t
    have hnew : child ∉ declarations t.toList := fun hmem => hnot ((ht.shows child hc).mpr hmem)
    refine ⟨⟨?_, fun c hmem => ?_, fun c hcd => ?_⟩, fun x => ?_⟩
    · rw [hlines, List.nodup_append]
      refine ⟨ht.nodup, List.nodup_singleton child, fun a ha b hb heq => ?_⟩
      rw [List.mem_singleton.mp hb] at heq
      exact hnew (heq ▸ ha)
    · rw [hlines] at hmem
      rcases List.mem_append.mp hmem with hmem | hmem
      · exact ht.declarable c hmem
      · rw [List.mem_singleton.mp hmem]
        exact hc
    · rw [BuildList.shows_extended hcd.2.2, BuildList.shows_declaration hc.2.1, ht.shows c hcd,
        hlines, List.mem_append, List.mem_singleton]
    · rw [hlines, List.mem_append, List.mem_singleton, or_comm]
      simp
  | started =>
    have hlines : declarations (BuildList.started child).toList = [child] :=
      BuildList.declarations_started hc.1 hc.2.2
    refine ⟨⟨?_, fun c hmem => ?_, fun c hcd => ?_⟩, fun x => ?_⟩
    · rw [hlines]
      exact List.nodup_singleton child
    · rw [hlines] at hmem
      rw [List.mem_singleton.mp hmem]
      exact hc
    · rw [BuildList.shows_started hcd hc.2.1, hlines, List.mem_singleton]
    · rw [hlines, List.mem_singleton]
      simp

/-- The text of a plain list is tidy. -/
theorem tidy_text {b : BuildList} (h : b.Plain) (hnodup : b.subdirectories.Nodup) :
    Tidy b.text := by
  have hlines : declarations b.text.toList = b.subdirectories :=
    BuildList.declarations_text h.quiet
  refine ⟨?_, fun c hc => ?_, fun c hc => ?_⟩
  · rw [hlines]
    exact hnodup
  · rw [hlines] at hc
    exact h.subdirectories c hc
  · rw [BuildList.shows_text h hc, hlines]

/-! ## 2. Maps of lists -/

/-- What the lists of directories hold, by the way from the root of the tests. -/
abbrev Lists := List String → Option Content

variable {v v' : Lists} {N K L : List String} {s x : String}

/-- The list of a directory declares a child. -/
def Names (v : Lists) (L : List String) (x : String) : Prop :=
  ∃ t, v L = some (.text t) ∧ x ∈ declarations t.toList

/-- The lists hold tidy texts, and each declares a child if and only if the child
has a list. -/
structure Exact (v : Lists) : Prop where
  texts : ∀ L c, v L = some c → ∃ t, c = .text t ∧ Tidy t
  sound : ∀ L x, Names v L x → (v (L ++ [x])).isSome
  complete : ∀ L x, (v (L ++ [x])).isSome → Names v L x

/-- The lists while a directory `N` is registered, which is taken for one that has
a list: all is exact, but the last directory `M` on the way up may not be declared
yet. -/
structure Wired (v : Lists) (N M : List String) : Prop where
  texts : ∀ L c, v L = some c → ∃ t, c = .text t ∧ Tidy t
  sound : ∀ L x, Names v L x → L ++ [x] = N ∨ (v (L ++ [x])).isSome
  complete : ∀ L x, L ++ [x] = N ∨ (v (L ++ [x])).isSome → L ++ [x] = M ∨ Names v L x
  reached : M = N ∨ (v M).isSome

/-- The list of one directory has a text in place of an old one, or a new one. -/
structure Rewritten (v v' : Lists) (K : List String) (old : Option String) (new : String) :
    Prop where
  before : v K = old.map .text
  after : v' K = some (.text new)
  others : ∀ L, L ≠ K → v' L = v L

theorem Rewritten.isSome (h : Rewritten v v' K old new) (hL : (v L).isSome) : (v' L).isSome := by
  by_cases hK : L = K
  · rw [hK, h.after]
    rfl
  · rwa [h.others L hK]

theorem Rewritten.names_other (h : Rewritten v v' K old new) (hL : L ≠ K) :
    Names v' L x ↔ Names v L x := by
  unfold Names
  rw [h.others L hL]

theorem Rewritten.names_here (h : Rewritten v v' K old new) :
    Names v' K x ↔ x ∈ declarations new.toList := by
  unfold Names
  rw [h.after]
  constructor
  · rintro ⟨t, ht, hx⟩
    cases ht
    exact hx
  · exact fun hx => ⟨new, rfl, hx⟩

theorem Rewritten.names_before (h : Rewritten v v' K old new) :
    Names v K x ↔ ∃ t ∈ old, x ∈ declarations t.toList := by
  unfold Names
  rw [h.before]
  cases old with
  | none => simp
  | some t => simp

/-- The new texts are tidy if the one that is new is. -/
theorem Rewritten.texts (h : Rewritten v v' K old new) (hnew : Tidy new)
    (hv : ∀ L c, v L = some c → ∃ t, c = .text t ∧ Tidy t) :
    ∀ L c, v' L = some c → ∃ t, c = .text t ∧ Tidy t := by
  intro L c hc
  by_cases hK : L = K
  · rw [hK, h.after] at hc
    cases hc
    exact ⟨new, rfl, hnew⟩
  · rw [h.others L hK] at hc
    exact hv L c hc

/-- The old text was tidy. -/
theorem Rewritten.old_tidy (h : Rewritten v v' K old new)
    (hv : ∀ L c, v L = some c → ∃ t, c = .text t ∧ Tidy t) : ∀ t ∈ old, Tidy t := by
  intro t ht
  obtain ⟨t', heq, htidy⟩ := hv K (.text t) (by rw [h.before, ht]; rfl)
  cases heq
  exact htidy

theorem Exact.wired (h : Exact v) (N : List String) : Wired v N N :=
  ⟨h.texts, fun L x hx => .inr (h.sound L x hx),
    fun L x hx => hx.imp_right (h.complete L x), .inl rfl⟩

/-- **A step up**: when a directory is declared in the one above, that one is the
only one that may not be declared yet. -/
theorem Wired.declare (h : Wired v N (K ++ [s])) (hs : Declarable s)
    (hr : Rewritten v v' K old new) (hd : Declares s old new) : Wired v' N K := by
  obtain ⟨htidy, hmem⟩ := hd.tidy hs (hr.old_tidy h.texts)
  refine ⟨hr.texts htidy h.texts, fun L x hx => ?_, fun L x hx => ?_, .inr ?_⟩
  · -- what is declared is the new child, or was declared
    by_cases hL : L = K
    · subst hL
      rw [hr.names_here, hmem, ← hr.names_before] at hx
      rcases hx with rfl | hx
      · exact h.reached.imp_right hr.isSome
      · exact (h.sound L x hx).imp_right hr.isSome
    · rw [hr.names_other hL] at hx
      exact (h.sound L x hx).imp_right hr.isSome
  · by_cases hLK : L ++ [x] = K
    · exact .inl hLK
    · rw [hr.others _ hLK] at hx
      refine .inr ?_
      rcases h.complete L x hx with heq | hnames
      · obtain ⟨rfl, rfl⟩ := List.append_singleton_inj.mp heq
        rw [hr.names_here, hmem]
        exact .inl rfl
      · by_cases hL : L = K
        · subst hL
          rw [hr.names_here, hmem, ← hr.names_before]
          exact .inr hnames
        · rwa [hr.names_other hL]
  · rw [hr.after]
    rfl

/-- **The last step**: when the list of the directory itself is written and keeps
what it declared, the lists are exact. -/
theorem Wired.exact (h : Wired v N []) (hr : Rewritten v v' N old new) (hnew : Tidy new)
    (hmem : ∀ x, x ∈ declarations new.toList ↔ Names v N x) : Exact v' := by
  have hnames : ∀ L x, Names v' L x ↔ Names v L x := by
    intro L x
    by_cases hL : L = N
    · rw [hL, hr.names_here, hmem]
    · exact hr.names_other hL
  have hthere : ∀ L, L = N ∨ (v L).isSome ↔ (v' L).isSome := by
    intro L
    by_cases hL : L = N
    · rw [hL, hr.after]
      simp
    · rw [hr.others L hL]
      simp [hL]
  refine ⟨hr.texts hnew h.texts, fun L x hx => ?_, fun L x hx => ?_⟩
  · exact (hthere _).mp (h.sound L x ((hnames L x).mp hx))
  · rcases h.complete L x ((hthere _).mpr hx) with heq | hx
    · simp at heq
    · exact (hnames L x).mpr hx

/-! ## 3. Lists on a disk -/

variable {P : Project} {R G : Location} {d d' : Disk}

/-- What the lists below the root of the tests hold on a disk. -/
def listsOf (R : Location) (d : Disk) : Lists := fun K =>
  match d.find? (R ++ (["tests", "ut"] ++ K ++ [BuildList.fileName])) with
  | some (.file c) => some c
  | _ => none

theorem listsOf_eq_some {c : Content} : listsOf R d K = some c ↔
    d.find? (R ++ (["tests", "ut"] ++ K ++ [BuildList.fileName])) = some (.file c) := by
  unfold listsOf
  split
  · rename_i c' he
    rw [he]
    simp
  · rename_i hother
    simp only [reduceCtorEq, false_iff]
    exact hother c

/-- Lists are the same where the files are. -/
theorem listsOf_congr
    (h : ∀ c, d'.find? (R ++ (["tests", "ut"] ++ K ++ [BuildList.fileName])) = some (.file c) ↔
      d.find? (R ++ (["tests", "ut"] ++ K ++ [BuildList.fileName])) = some (.file c)) :
    listsOf R d' K = listsOf R d K := by
  refine Option.ext fun c => ?_
  rw [listsOf_eq_some, listsOf_eq_some, h c]

/-- Where nothing has the name of a list, there are no lists. -/
theorem listsOf_eq_none (h : ∀ l s e, d.find? (l ++ [s]) = some e → s ≠ BuildList.fileName)
    (K : List String) : listsOf R d K = none := by
  cases hK : listsOf R d K with
  | none => rfl
  | some c =>
    rw [listsOf_eq_some, ← List.append_assoc] at hK
    exact absurd rfl (h _ _ _ hK)

theorem clean_fileName : Clean BuildList.fileName := by decide

/-- **Where the text of one list changes, the map of lists changes there.** -/
theorem Relisted.rewritten (hP : P.Orderly) (h : Laid P R d) (hd' : d'.Grounded)
    (hg : d.Grows d') (hK : ∀ t ∈ K, Clean t)
    (hr : Relisted P (["tests", "ut"] ++ K) d d' G old new) :
    Laid P R d' ∧ Rewritten (listsOf R d) (listsOf R d') K old new := by
  have hL : ∀ t ∈ ["tests", "ut"] ++ K, Path.IsName t :=
    fun t ht => (clean_below hK t ht).1
  obtain ⟨rfl, ha⟩ := h.added_of_located hg hL fileName_isName hr.located hr.after hr.others
  refine ⟨h.added hP hd' hg hK clean_fileName ha, ?_, ?_, fun L hLK => ?_⟩
  · have hbefore := hr.before
    unfold listsOf
    rw [hbefore]
    cases old <;> rfl
  · exact listsOf_eq_some.mpr hr.after
  · refine listsOf_congr fun c => hr.file_iff (fun heq => hLK ?_) c
    have heq := List.append_cancel_left heq
    rw [List.append_assoc, List.append_assoc] at heq
    exact (List.append_singleton_inj.mp (List.append_cancel_left heq)).1

theorem declare_rewrites (hP : P.Orderly) (h : Laid P R d) (hK : ∀ t ∈ K, Clean t) (s : String) :
    (declare P ⟨false, ["tests", "ut"] ++ K⟩ s).Ends
      (fun _ d' => Laid P R d' ∧ ∃ old new,
        Rewritten (listsOf R d) (listsOf R d') K old new ∧ Declares s old new)
      (fun e _ => e.isUserError = false) d := by
  have hL : ∀ t ∈ ["tests", "ut"] ++ K, Path.IsName t :=
    fun t ht => (clean_below hK t ht).1
  refine ((declare_relisted h.grounded h.placed hL).kept h.grounded).mono
    (fun _ d' h' => ?_) fun _ _ h' => h'.1.1
  obtain ⟨hdone, hd', hg⟩ := h'
  rcases hdone with ⟨hex, _⟩ | ⟨G, old, new, hr, hdecl⟩
  · rw [hP.excludes] at hex
    cases hex
  · obtain ⟨hlaid, hrewritten⟩ := hr.rewritten hP h hd' hg hK
    exact ⟨hlaid, old, new, hrewritten, hdecl⟩

/-- **A chain keeps the lists exact**, but for the directory it begins with. -/
theorem registerChain_wired (hP : P.Orderly) (h : Laid P R d) (hN : ∀ t ∈ N, Clean t)
    (hv : Exact (listsOf R d)) :
    (registerChain P ⟨false, ["tests", "ut"] ++ N⟩ ⟨false, ["tests", "ut"]⟩).Ends
      (fun _ d' => Laid P R d' ∧ Wired (listsOf R d') N [])
      (fun e _ => e.isUserError = false) d := by
  have hnames : ∀ t ∈ ["tests", "ut"] ++ N, Path.IsName t :=
    fun t ht => (clean_below hN t ht).1
  rw [registerChain_names P hnames]
  refine declareUpTo_ends (I := fun M d' => Laid P R d' ∧ Wired (listsOf R d') N M) hnames
    (fun A s d₁ hA h₁ => ?_) ⟨h, hv.wired N⟩
  have hs : Clean s := hN s (hA.subset (by simp))
  refine (declare_rewrites hP h₁.1 (fun t ht => hN t (hA.subset (by simp [ht]))) s).mono
    (fun _ d₂ h₂ => ?_) fun _ _ he => he
  obtain ⟨hlaid, old, new, hr, hdecl⟩ := h₂
  exact ⟨hlaid, h₁.2.declare hs.2 hr hdecl⟩

/-- **Writing the list of the directory makes the lists exact.** -/
theorem writeLeaf_exact (hP : P.Orderly) (h : Laid P R d) (hN : ∀ t ∈ N, Clean t)
    (hw : Wired (listsOf R d) N []) :
    (writeLeaf P ⟨false, ["tests", "ut"] ++ N⟩ ⟨false, P.config.sourceDir :: N⟩).Ends
      (fun _ d' => Laid P R d' ∧ Exact (listsOf R d'))
      (fun e _ => e.isUserError = false) d := by
  have hnames : ∀ t ∈ ["tests", "ut"] ++ N, Path.IsName t :=
    fun t ht => (clean_below hN t ht).1
  refine ((writeLeaf_relisted P ⟨false, P.config.sourceDir :: N⟩ h.grounded h.placed hnames).kept
    h.grounded).mono (fun _ d' h' => ?_) fun _ _ h' => h'.1.1
  obtain ⟨hdone, hd', hg⟩ := h'
  rcases hdone with ⟨hex, _⟩ | ⟨G, old, hr, hsub⟩
  · rw [hP.excludes] at hex
    cases hex
  · obtain ⟨hlaid, hrewritten⟩ := hr.rewritten hP h hd' hg hN
    -- the new list declares what the lines of the old one did
    have hmem : ∀ x, x ∈ (planned P d ⟨false, ["tests", "ut"] ++ N⟩
        ⟨false, P.config.sourceDir :: N⟩).subdirectories ↔
          ∃ t ∈ old, x ∈ declarations t.toList := by
      intro x
      rw [hsub]
      cases old with
      | none => simp
      | some t => simp [BuildList.mem_declaredSubdirectories]
    have hplain : (planned P d ⟨false, ["tests", "ut"] ++ N⟩
        ⟨false, P.config.sourceDir :: N⟩).Plain := by
      refine ⟨fun s hs => bare_iff.mp (h.bare_printed hP hN hs), fun x hx => ?_⟩
      obtain ⟨t, ht, hx⟩ := (hmem x).mp hx
      exact (hrewritten.old_tidy hw.texts t ht).declarable x hx
    have hnodup : (planned P d ⟨false, ["tests", "ut"] ++ N⟩
        ⟨false, P.config.sourceDir :: N⟩).subdirectories.Nodup := by
      rw [hsub]
      cases old with
      | none => exact List.nodup_nil
      | some t => exact BuildList.nodup_declaredSubdirectories t
    refine ⟨hlaid, hw.exact hrewritten (tidy_text hplain hnodup) fun x => ?_⟩
    rw [BuildList.declarations_text hplain.quiet, hmem, hrewritten.names_before]

end Scaffold.BuildTree
