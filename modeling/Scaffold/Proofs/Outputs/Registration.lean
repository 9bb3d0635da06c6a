import Scaffold.Proofs.BuildTree.Persistence
import Scaffold.Proofs.Disk.Below
import Scaffold.Proofs.Outputs.Places
import Scaffold.Proofs.Path.Continued

/-!
# Registering a directory

What becomes of the build lists when a directory of tests is registered, however the paths
are spelled.

* `Footing` -- a path leads to a directory with no links below it; `Footing.readAt_iff`,
  `Footing.changeAt`: **then a path that goes on with names leads to what has these names**;
* `Enlists`, `declare_enlists` -- declaring a child changes the list of one directory, and no
  other file;
* `Grown` -- a list that held what it held before, and may declare one more child behind;
  `Declares.grown`;
* `Climbed`, `Climbed.step` -- the files between two steps of a chain;
* `registration_grows` -- **registering a directory makes the lists on its path grow and
  changes no other file, whatever comes of it; doing it again changes nothing**.
-/
namespace Scaffold

open Artifact (BuildList)

/-! ## 1. A directory to start from -/

/-- A path leads to a directory, and there are no links below it. -/
structure Disk.Footing (B : Path) (k : Location) (d : Disk) : Prop where
  grounded : d.Grounded
  located : d.locate true B = .ok k
  directory : d.find? k = some .directory
  linkless : ∀ l t, d.find? (k ++ l) ≠ some (.link t)

namespace Disk.Footing

variable {B : Path} {k l : Location} {d d' : Disk} {r : Bool} {X L : List String} {s : String}

theorem answer (h : d.Footing B k) (q : Request) : (d.answer q).2.Footing B k where
  grounded := answer_grounded h.grounded q
  located := locate_grows (d.answer_grows q) h.located
  directory := (d.answer_grows q).directory h.directory
  linkless l t hlink := h.linkless l t (answer_links d q hlink)

/-- The root of the disk is one, where there are no links at all. -/
theorem root (hd : d.Grounded) (hlinks : d.Linkless) : d.Footing Path.root [] where
  grounded := hd
  located := locate_eq_ok_iff.mpr (resolve_eq_ok_iff.mpr ⟨by decide, .here mostLinks []⟩)
  directory := find?_nil d
  linkless l _ hlink := hlinks l _ hlink rfl

theorem way (h : d.Footing B k) : Way d true mostLinks [] B.segments (.found k) :=
  (resolve_eq_ok_iff.mp (locate_eq_ok_iff.mp h.located)).2

theorem clear (h : d.Footing B k) (L : List String) : d.Clear k L :=
  fun Y _ _ t => h.linkless Y t

section Names

variable (h : d.Footing B k) (hX : X.filter (fun s => !Path.idle s) = B.names ++ L)
  (hL : ∀ t ∈ L ++ [s], Path.IsName t)

include h hX hL

/-- **A path that goes on with names leads to what has these names.** -/
theorem located_iff : d.locate true ⟨r, X ++ [s]⟩ = .ok l ↔
    l = k ++ (L ++ [s]) ∧ (d.find? l).isSome = true := by
  have hs : Path.IsName s := hL s (by simp)
  have hlast (Y : List String) : ∀ t ∈ (Y ++ [s]).getLast?, Path.idle t = false := by
    intro t ht
    rw [List.getLast?_concat] at ht
    exact Option.some.inj ht ▸ hs.not_idle
  have hnames : (L ++ [s]).filter (fun t => !Path.idle t) = L ++ [s] :=
    List.filter_eq_self.mpr fun t ht => by simp [(hL t ht).not_idle]
  have hsame : (B.segments ++ (L ++ [s])).filter (fun t => !Path.idle t) =
      (X ++ [s]).filter fun t => !Path.idle t := by
    rw [List.filter_append, hnames, List.filter_append, hX, List.append_assoc,
      List.filter_cons_of_pos (by simp [hs.not_idle]), List.filter_nil]
    rfl
  rw [locate_eq_ok_iff, resolve_eq_ok_iff,
    and_iff_right (Path.text_ne_empty (s := s) (by simp) hs.1)]
  constructor
  · intro hway
    have hspelled := hway.respaced hsame (.inl (by rw [← List.append_assoc]; exact hlast _))
    obtain rfl := Way.onward_inv h.way hL (h.clear _) hspelled
    obtain ⟨e, he⟩ := Way.there h.grounded hway ⟨_, rfl⟩
    exact ⟨rfl, Option.isSome_iff_exists.mpr ⟨e, he⟩⟩
  · rintro ⟨rfl, hsome⟩
    obtain ⟨e, he⟩ := Option.isSome_iff_exists.mp hsome
    exact (Way.onward h.grounded h.way hL (h.clear _) he).respaced hsame.symm (.inl (hlast X))

theorem readAt_iff {c : Content} : d.readAt ⟨r, X ++ [s]⟩ = .ok c ↔
    d.find? (k ++ (L ++ [s])) = some (.file c) := by
  rw [readAt_eq_ok_iff]
  constructor
  · rintro ⟨l, hl, hfile⟩
    obtain ⟨rfl, -⟩ := (h.located_iff hX hL).mp hl
    exact hfile
  · intro hfile
    exact ⟨_, (h.located_iff hX hL).mpr ⟨rfl, Option.isSome_iff_exists.mpr ⟨_, hfile⟩⟩, hfile⟩

theorem readAt_notFound (hread : d.readAt ⟨r, X ++ [s]⟩ = .error .notFound) :
    d.find? (k ++ (L ++ [s])) = none := by
  cases he : d.find? (k ++ (L ++ [s])) with
  | none => rfl
  | some e =>
    have hl : d.locate true ⟨r, X ++ [s]⟩ = .ok (k ++ (L ++ [s])) :=
      (h.located_iff hX hL).mpr ⟨rfl, Option.isSome_iff_exists.mpr ⟨e, he⟩⟩
    unfold Disk.readAt at hread
    rw [hl] at hread
    dsimp only at hread
    rw [he] at hread
    cases e with
    | file c => cases hread
    | directory => cases hread
    | link t => exact absurd he (h.linkless _ t)

end Names

/-- A file that is changed at such a path has these names. -/
theorem changeAt {content : Option Content → Content} (h' : d'.Footing B k)
    (hX : X.filter (fun s => !Path.idle s) = B.names ++ L) (hL : ∀ t ∈ L ++ [s], Path.IsName t)
    (hchange : d.changeAt ⟨r, X ++ [s]⟩ content = .ok d') :
    d' = d.put (k ++ (L ++ [s])) (.file (content (d.readAt ⟨r, X ++ [s]⟩).toOption)) := by
  obtain ⟨G, -, hG, hput, -⟩ := changeAt_located hchange
  obtain ⟨rfl, -⟩ := (h'.located_iff hX hL).mp hG
  exact hput

end Disk.Footing

namespace BuildTree

/-! ## 2. One declaration -/

/-- The list at a location comes to declare a child, and no other file changes. -/
structure Enlists (G : Location) (child : String) (d d' : Disk) (old : Option String)
    (new : String) : Prop where
  before : d.find? G = old.map fun t => .file (.text t)
  after : d'.find? G = some (.file (.text new))
  declares : Declares child old new
  others : ∀ l, l ≠ G → d'.find? l = d.find? l ∨ (d.find? l = none ∧ d'.find? l = some .directory)

variable {P : Project} {B K : Path} {k : Location} {d d' : Disk} {L : List String}
  {child : String}

theorem Declared.enlists (h : d.Footing B k) (h' : d'.Footing B k)
    (hK : (P.absolute K).names = B.names ++ L) (hL : ∀ t ∈ L, Path.IsName t)
    (hd : Declared P K child d d') :
    ∃ old new, Enlists (k ++ (L ++ [BuildList.fileName])) child d d' old new := by
  obtain ⟨r, X, hfile, hX⟩ := Path.absolute_child_names P K BuildList.fileName
  rw [hK] at hX
  have hnames : ∀ t ∈ L ++ [BuildList.fileName], Path.IsName t :=
    List.forall_mem_append.mpr ⟨hL, fun t ht => List.mem_singleton.mp ht ▸ fileName_isName⟩
  have hne : k ++ (L ++ [BuildList.fileName]) ≠ [] := by simp
  cases hd with
  | shown t hread hin hsame =>
    subst hsame
    rw [hfile] at hread
    have ht := (h.readAt_iff hX hnames).mp hread
    exact ⟨some t, t, ht, ht, .shown t (BuildList.occursIn_iff.mp hin), fun l _ => .inl rfl⟩
  | appended t hread hin hchange =>
    rw [hfile] at hread hchange
    have ht := (h.readAt_iff hX hnames).mp hread
    have hput := h'.changeAt hX hnames hchange
    rw [hread] at hput
    have hnot : ¬BuildList.Shows t.toList child := by
      rw [BuildList.Shows, ← BuildList.occursIn_iff, hin]
      exact Bool.false_ne_true
    refine ⟨some t, BuildList.extended t child, ht, ?_, .appended t hnot, fun l hl => .inl ?_⟩
    · rw [hput, Disk.find?_put _ hne, if_pos rfl]
      rfl
    · rw [hput, Disk.find?_put_of_ne _ hne _ hl]
  | started d₁ hread hmade hchange =>
    rw [hfile] at hread hchange
    have hext := d.makeDirs_extends (P.absolute K)
    rw [hmade] at hext
    have hput := h'.changeAt hX hnames hchange
    refine ⟨none, BuildList.started child, h.readAt_notFound hX hnames hread, ?_, .started,
      fun l hl => ?_⟩
    · rw [hput, Disk.find?_put _ hne, if_pos rfl]
    · rw [hput, Disk.find?_put_of_ne _ hne _ hl]
      exact hext l

/-- **Declaring a child changes the list of its directory and no other file.** -/
theorem declare_enlists (h : d.Footing B k) (hK : (P.absolute K).names = B.names ++ L)
    (hL : ∀ t ∈ L, Path.IsName t) :
    (declare P K child).Ends
      (fun _ d' => d'.Footing B k ∧
        ((P.excludes (K.child BuildList.fileName) = true ∧ d' = d) ∨
          ∃ old new, Enlists (k ++ (L ++ [BuildList.fileName])) child d d' old new))
      (fun _ d' => d.Extends d') d := by
  have hkept := Job.ends_keeps (I := Disk.Footing B k) (fun _ q h => h.answer q)
    (declare P K child) d h
  refine ((declare_ends P K child d).and hkept).mono (fun _ d' hd' => ?_) fun _ _ he => he.1.2
  obtain ⟨hd', hfooting⟩ := hd'
  exact ⟨hfooting, hd'.imp_right (Declared.enlists h hfooting hK hL)⟩

/-! ## 3. What a list declares -/

/-- A list holds what it held at its beginning, and declares the same as before or the child
besides, behind the others. -/
structure Grown (child : String) (old : Option String) (new : String) : Prop where
  kept : ∀ t ∈ old, t.toList <+: new.toList
  declared : BuildList.declaredSubdirectories new = (old.map BuildList.declaredSubdirectories).getD [] ∨
    BuildList.declaredSubdirectories new =
      (old.map BuildList.declaredSubdirectories).getD [] ++ [child]

variable {old : Option String} {new : String}

theorem Declares.grown (h : Declares child old new) (htrim : BuildList.Trimmed child)
    (hline : '\n' ∉ child.toList) : Grown child old new := by
  cases h with
  | shown t _ => exact ⟨fun u hu => Option.some.inj hu ▸ List.prefix_refl _, .inl rfl⟩
  | appended t _ =>
    constructor
    · intro u hu
      rw [← Option.some.inj hu, BuildList.extended, String.toList_append]
      exact List.prefix_append _ _
    · rw [BuildList.declaredSubdirectories_eq, BuildList.declarations_extended htrim hline]
      exact BuildList.eraseDups_concat _ _
  | started =>
    refine ⟨fun u hu => (nomatch hu), .inr ?_⟩
    rw [BuildList.declaredSubdirectories_eq, BuildList.declarations_started htrim hline]
    rfl

/-! ## 4. A chain of declarations -/

variable {T leaf : Path} {top names M A C : List String} {s : String} {l : Location}

/-- What has become of what was at a location, when a chain has gone up from `top ++ names` to
`top ++ M`: it is the same, a directory was made there, or it is the list of a directory
between the two, which has grown by the name behind. -/
inductive Fate (k : Location) (top names M : List String) (l : Location) :
    Option Entry → Option Entry → Prop
  | same (e : Option Entry) : Fate k top names M l e e
  | made : Fate k top names M l none (some .directory)
  | listed {A C : List String} {s : String} {old : Option String} {new : String}
      (hnames : names = A ++ s :: C) (hM : M.length ≤ A.length)
      (hl : l = k ++ (top ++ A ++ [BuildList.fileName])) (h : Grown s old new) :
      Fate k top names M l (old.map fun t => .file (.text t)) (some (.file (.text new)))

variable {e e' : Option Entry}

/-- The same, when the chain has gone up further. -/
theorem Fate.up {M' : List String} (h : Fate k top names M l e e') (hM' : M'.length ≤ M.length) :
    Fate k top names M' l e e' := by
  cases h with
  | same => exact .same e
  | made => exact .made
  | listed hnames hM hl h => exact .listed hnames (hM'.trans hM) hl h

/-- A location where nothing but a directory is made. -/
theorem Fate.extended {x : Option Entry} (h : Fate k top names M l e e')
    (hx : x = e' ∨ (e' = none ∧ x = some .directory)) : Fate k top names M l e x := by
  rcases hx with rfl | ⟨rfl, rfl⟩
  · exact h
  · cases h
    exact .made

/-- **One step of a chain.** The list that changes is the one of the directory that is
reached; it was not changed before, for the others lie further down. -/
theorem Fate.step {d₀ : Disk} (hM : M ++ [s] <+: names) (htrim : BuildList.Trimmed s)
    (hline : '\n' ∉ s.toList)
    (h : ∀ l, Fate k top names (M ++ [s]) l (d₀.find? l) (d.find? l))
    (he : Enlists (k ++ (top ++ M ++ [BuildList.fileName])) s d d' old new) :
    ∀ l, Fate k top names M l (d₀.find? l) (d'.find? l) := by
  intro l
  by_cases hl : l = k ++ (top ++ M ++ [BuildList.fileName])
  · obtain ⟨C, hC⟩ := hM
    have hnames : names = M ++ s :: C := by rw [← hC, List.append_assoc]; rfl
    have hbefore := he.before
    rw [← hl] at hbefore
    have hfate := h l
    rw [hbefore] at hfate
    rw [hl, he.after, ← hl]
    generalize hstart : d₀.find? l = e at hfate
    generalize hnow : old.map (fun t => Entry.file (.text t)) = e' at hfate
    cases hfate with
    | same =>
      rw [← hnow]
      exact .listed hnames (Nat.le_refl _) hl (he.declares.grown htrim hline)
    | made => cases old <;> cases hnow
    | listed _ hA hl' _ =>
      have hlength := congrArg List.length (hl.symm.trans hl')
      simp only [List.length_append] at hlength hA
      simp only [List.length_cons, List.length_nil] at hlength hA
      omega
  · exact ((h l).up (List.prefix_append M [s]).length_le).extended (he.others l hl)

/-- The build list of a directory shows a child, or it is not written at all. -/
def Shown (P : Project) (d : Disk) (x : Path × String) : Prop :=
  P.excludes (x.1.child BuildList.fileName) = true ∨
    ∃ t, d.readAt (P.absolute (x.1.child BuildList.fileName)) = .ok (.text t) ∧
      BuildList.Shows t.toList x.2

/-- What is shown is shown after another declaration as well. -/
theorem Shown.enlists {G : Location} {x : Path × String} (h : Shown P d x)
    (hx : '\n' ∉ x.2.toList) (hg : d.Grows d') (he : Enlists G s d d' old new) :
    Shown P d' x := by
  refine h.imp_right fun ⟨t, hread, hshows⟩ => ?_
  obtain ⟨F, hF, ht⟩ := Disk.readAt_eq_ok_iff.mp hread
  by_cases hFG : F = G
  · obtain ⟨rfl⟩ : old = some t := by
      have hbefore := he.before
      rw [← hFG, ht] at hbefore
      obtain ⟨u, hu, hut⟩ := Option.map_eq_some_iff.mp hbefore.symm
      cases hut
      exact hu
    exact ⟨new, Disk.readAt_eq_ok_iff.mpr ⟨F, Disk.locate_grows hg hF, hFG ▸ he.after⟩,
      he.declares.shows_still hx hshows⟩
  · refine ⟨t, Disk.readAt_eq_ok_iff.mpr ⟨F, Disk.locate_grows hg hF, ?_⟩, hshows⟩
    rcases he.others F hFG with hsame | ⟨hnone, -⟩
    · exact hsame.trans ht
    · rw [ht] at hnone
      cases hnone

/-- What is declared in the end shows. -/
theorem Enlists.shown (h : d'.Footing B k)
    (hK : (P.absolute K).names = B.names ++ L) (hL : ∀ t ∈ L, Path.IsName t)
    (hline : '\n' ∉ child.toList)
    (he : Enlists (k ++ (L ++ [BuildList.fileName])) child d d' old new) :
    Shown P d' (K, child) := by
  obtain ⟨r, X, hfile, hX⟩ := Path.absolute_child_names P K BuildList.fileName
  rw [hK] at hX
  refine .inr ⟨new, ?_, he.declares.shows hline⟩
  rw [hfile, h.readAt_iff hX
    (List.forall_mem_append.mpr ⟨hL, fun t ht => List.mem_singleton.mp ht ▸ fileName_isName⟩)]
  exact he.after

/-! ## 5. Registration -/

/-- A chain from a path that goes on with a name begins in its parent. -/
theorem chain_concat (h : leaf.components = T.components ++ (M ++ [s]).map .name) :
    ∃ K, chain T leaf = (K, s) :: chain T K ∧ K.components = T.components ++ M.map .name := by
  rw [List.map_append, ← List.append_assoc] at h
  obtain ⟨hname, K, hparent, hK⟩ := Path.parent_of_components h
  have hsame : ¬leaf.same T = true := by
    rw [Path.same, beq_iff_eq, h, List.append_assoc]
    exact fun heq => absurd (List.append_right_eq_self.mp heq) (by simp)
  refine ⟨K, ?_, hK⟩
  rw [chain, if_neg hsame]
  split
  · rename_i K' s' hK' hs'
    cases hparent.symm.trans hK'
    cases hname.symm.trans hs'
    rfl
  · rename_i hnone
    exact absurd hname (hnone K s hparent)

theorem chain_self (h : leaf.components = T.components) : chain T leaf = [] := by
  rw [chain, if_pos (by rw [Path.same, h, beq_self_eq_true])]

/-- **Declaring along a chain** keeps what each step up keeps. -/
theorem ends_chain {I : List String → Path → Disk → Prop} {bad : Failure → Disk → Prop} :
    ∀ {names : List String} {leaf : Path} {d : Disk},
      leaf.components = T.components ++ names.map .name →
      (∀ M s L K d, M ++ [s] <+: names → K.components = T.components ++ M.map .name →
        chain T L = (K, s) :: chain T K → I (M ++ [s]) L d →
          (declare P K s).Ends (fun _ => I M K) bad d) →
      I names leaf d →
      (Job.each (fun x => declare P x.1 x.2) (chain T leaf)).Ends
        (fun _ d' => ∃ K, chain T K = [] ∧ I [] K d') bad d := by
  intro names
  induction names using List.reverseRecOn with
  | nil =>
    intro leaf d hleaf _ hd
    rw [List.map_nil, List.append_nil] at hleaf
    have hnil := chain_self hleaf
    rw [hnil]
    exact ⟨leaf, hnil, hd⟩
  | append_singleton M s ih =>
    intro leaf d hleaf hstep hd
    obtain ⟨K, hchain, hK⟩ := chain_concat hleaf
    rw [hchain, Job.each, Job.ends_bind]
    refine (hstep M s leaf K d (List.prefix_refl _) hK hchain hd).mono (fun _ d' hd' => ?_)
      fun _ _ h => h
    exact ih hK (fun M' s' L K' d hM' => hstep M' s' L K' d (hM'.trans (List.prefix_append M [s]))) hd'

/-- A list that shows a child is left as it is. -/
theorem declare_shown {x : Path × String} (h : Shown P d x) :
    ∃ o, (o = .unchanged ∨ o = .skippedExcluded) ∧ (declare P x.1 x.2).run d =
      ⟨.ok (), ⟨[⟨x.1.child BuildList.fileName, o, some x.2⟩]⟩, d⟩ := by
  unfold declare
  dsimp only
  split
  · exact ⟨.skippedExcluded, .inr rfl, rfl⟩
  · rename_i hex
    obtain ⟨t, hread, hshows⟩ := h.resolve_left hex
    refine ⟨.unchanged, .inl rfl, ?_⟩
    have htext : ((Job.tryText (P.absolute (x.1.child BuildList.fileName))).run d).value =
        .ok (.ok t) := by
      change Except.ok (Job.asText (d.readAt _)) = _
      rw [hread]
      rfl
    rw [Job.Reads.run_seq (Job.reads_tryText _) htext]
    dsimp only
    rw [if_pos (BuildList.occursIn_iff.mpr hshows)]
    rfl

/-- **Where all is shown, declaring it again changes nothing.** -/
theorem each_shown : ∀ {xs : List (Path × String)}, (∀ x ∈ xs, Shown P d x) →
    ∃ rs, (Job.each (fun x => declare P x.1 x.2) xs).run d = ⟨.ok (), ⟨rs⟩, d⟩ ∧
      ∀ r ∈ rs, r.outcome = .unchanged ∨ r.outcome = .skippedExcluded
  | [], _ => ⟨[], rfl, fun _ hr => nomatch hr⟩
  | x :: xs, h => by
      obtain ⟨hx, hxs⟩ := List.forall_mem_cons.mp h
      obtain ⟨o, ho, hrun⟩ := declare_shown hx
      obtain ⟨rs, hrest, hrs⟩ := each_shown hxs
      refine ⟨⟨x.1.child BuildList.fileName, o, some x.2⟩ :: rs, ?_,
        List.forall_mem_cons.mpr ⟨ho, hrs⟩⟩
      rw [Job.each, Job.run_bind, hrun]
      dsimp only
      rw [hrest]
      rfl

/-- **Registering a directory makes the lists on its path grow**, those of the directories from
the root of the tests down to its parent, and changes no other file, whatever comes of it.
When it went well, doing it again changes nothing. -/
theorem registration_grows {testRoot : Path} (h : d.Footing B k)
    (htop : (P.absolute testRoot).components = B.components ++ top.map .name)
    (hleaf : leaf.components = testRoot.components ++ names.map .name)
    (hnames : ∀ s ∈ names, BuildList.Trimmed s ∧ '\n' ∉ s.toList) :
    (∀ l, Fate k top names [] l (d.find? l)
      (((registerChain P leaf testRoot).run d).disk.find? l)) ∧
    (((registerChain P leaf testRoot).run d).value = .ok () → ∃ rs,
      (registerChain P leaf testRoot).run ((registerChain P leaf testRoot).run d).disk =
        ⟨.ok (), ⟨rs⟩, ((registerChain P leaf testRoot).run d).disk⟩ ∧
      ∀ r ∈ rs, r.outcome = .unchanged ∨ r.outcome = .skippedExcluded) := by
  have hbegins : leaf.startsWith testRoot = true := by
    rw [Path.startsWith, hleaf, List.isPrefixOf_iff_prefix]
    exact List.prefix_append _ _
  have hchain : registerChain P leaf testRoot =
      Job.each (fun x => declare P x.1 x.2) (chain testRoot leaf) := by
    rw [registerChain, if_pos hbegins, declareUpTo_eq]
  have hends : (Job.each (fun x => declare P x.1 x.2) (chain testRoot leaf)).Ends
      (fun _ d' => ∃ K, chain testRoot K = [] ∧ d'.Footing B k ∧
        (∀ l, Fate k top names [] l (d.find? l) (d'.find? l)) ∧
        ∀ x ∈ chain testRoot leaf, x ∈ chain testRoot K ∨ ('\n' ∉ x.2.toList ∧ Shown P d' x))
      (fun _ d' => ∀ l, Fate k top names [] l (d.find? l) (d'.find? l)) d := by
    refine ends_chain (I := fun M K d' => d'.Footing B k ∧
      (∀ l, Fate k top names M l (d.find? l) (d'.find? l)) ∧
      ∀ x ∈ chain testRoot leaf, x ∈ chain testRoot K ∨ ('\n' ∉ x.2.toList ∧ Shown P d' x))
      hleaf ?_ ⟨h, fun l => .same _, fun x hx => .inl hx⟩
    rintro M s L K d₁ hM hK hL ⟨hfooting, hfate, hshown⟩
    obtain ⟨htrim, hline⟩ := hnames s (hM.subset (by simp))
    have hlist : (P.absolute K).names = B.names ++ (top ++ M) := by
      rw [Path.names_absolute hK, Path.names_of_components htop, List.append_assoc]
    have hdirs : ∀ t ∈ top ++ M, Path.IsName t :=
      List.forall_mem_append.mpr ⟨Path.isName_of_components htop, fun t ht =>
        Path.isName_of_components hleaf t (hM.subset (List.mem_append_left _ ht))⟩
    -- what was passed before is passed still, and the directory that was left now is shown
    have hpassed {d₂ : Disk} (hleft : Shown P d₂ (K, s))
        (hstill : ∀ x : Path × String, '\n' ∉ x.2.toList → Shown P d₁ x → Shown P d₂ x) :
        ∀ x ∈ chain testRoot leaf, x ∈ chain testRoot K ∨ ('\n' ∉ x.2.toList ∧ Shown P d₂ x) := by
      intro x hx
      rcases hshown x hx with hmem | ⟨hx, hshows⟩
      · rw [hL] at hmem
        rcases List.mem_cons.mp hmem with rfl | hmem
        · exact .inr ⟨hline, hleft⟩
        · exact .inl hmem
      · exact .inr ⟨hx, hstill x hx hshows⟩
    refine (declare_enlists hfooting hlist hdirs).grown.mono
      (fun _ d₂ hd₂ => ?_) fun _ d₂ hd₂ l => ((hfate l).up (Nat.zero_le _)).extended (hd₂.1 l)
    obtain ⟨⟨hfooting₂, ⟨hex, rfl⟩ | ⟨old, new, he⟩⟩, hgrows⟩ := hd₂
    · exact ⟨hfooting₂, fun l => (hfate l).up (List.prefix_append M [s]).length_le,
        hpassed (.inl hex) fun _ _ hx => hx⟩
    · exact ⟨hfooting₂, Fate.step hM htrim hline hfate he,
        hpassed (he.shown hfooting₂ hlist hdirs hline) fun x hx hshows => hshows.enlists hx hgrows he⟩
  rw [hchain]
  constructor
  · refine Job.Ends.of_run (I := fun d' => ∀ l, Fate k top names [] l (d.find? l) (d'.find? l)) ?_
    exact hends.mono (fun _ d' ⟨_, _, _, hfate, _⟩ => hfate) fun _ _ hfate => hfate
  · intro hok
    obtain ⟨K, hnil, -, -, hshown⟩ := hends.of_run_ok hok
    refine each_shown fun x hx => ?_
    rw [hnil] at hshown
    exact ((hshown x hx).resolve_left List.not_mem_nil).2

theorem sibling_appended_once :
    (listDisk "add_subdirectory(fs1)" []).Footing Path.root [] ∧
    ((registerChain .usual ⟨false, ["tests", "ut", "fs2", "a"]⟩ testsDir).run
      (listDisk "add_subdirectory(fs1)" [])).value = .ok () ∧
    (∀ l, Fate [] ["w", "tests", "ut"] ["fs2", "a"] [] l
      ((listDisk "add_subdirectory(fs1)" []).find? l)
      (((registerChain .usual ⟨false, ["tests", "ut", "fs2", "a"]⟩ testsDir).run
        (listDisk "add_subdirectory(fs1)" [])).disk.find? l)) ∧
    ∃ rs, (registerChain .usual ⟨false, ["tests", "ut", "fs2", "a"]⟩ testsDir).run
        ((registerChain .usual ⟨false, ["tests", "ut", "fs2", "a"]⟩ testsDir).run
          (listDisk "add_subdirectory(fs1)" [])).disk =
        ⟨.ok (), ⟨rs⟩, ((registerChain .usual ⟨false, ["tests", "ut", "fs2", "a"]⟩ testsDir).run
          (listDisk "add_subdirectory(fs1)" [])).disk⟩ ∧
      ∀ r ∈ rs, r.outcome = .unchanged ∨ r.outcome = .skippedExcluded := by
  have hfooting : (listDisk "add_subdirectory(fs1)" []).Footing Path.root [] :=
    .root (by decide) (Disk.linkless_of_entries (by decide))
  have hok := Job.ok_of_isOk (r := ((registerChain .usual ⟨false, ["tests", "ut", "fs2", "a"]⟩
    testsDir).run (listDisk "add_subdirectory(fs1)" [])).value) (by decide +kernel)
  have htop : (Project.usual.absolute testsDir).components =
      Path.root.components ++ ["w", "tests", "ut"].map .name := by decide
  have hleaf : (⟨false, ["tests", "ut", "fs2", "a"]⟩ : Path).components =
      testsDir.components ++ ["fs2", "a"].map .name := by decide
  obtain ⟨hfate, hagain⟩ := registration_grows hfooting htop hleaf (by decide)
  exact ⟨hfooting, hok, hfate, hagain hok⟩

/-- A list that was written by hand in `tests`, in a project without test directories. -/
def handmadeList : Disk :=
  ⟨[(["w"], .directory), (["w", "tests"], .directory),
    (["w", "tests", "CMakeLists.txt"], .file (.text "# mine\n"))]⟩

/-- Where the root of the tests goes up from a directory that is not there yet, its list is
looked for in vain. Once the directory is made the path leads to the one that was written by
hand, and it is lost. -/
theorem handmade_list_replaced :
    handmadeList.Grounded ∧ (∀ x ∈ handmadeList.entries, x.2.kind ≠ .link) ∧
    (⟨false, ["tests", "ut", "..", "a"]⟩ : Path).components =
      (⟨false, ["tests", "ut", ".."]⟩ : Path).components ++ ["a"].map .name ∧
    ((registerChain .usual ⟨false, ["tests", "ut", "..", "a"]⟩ ⟨false, ["tests", "ut", ".."]⟩).run
      handmadeList).value.isOk = true ∧
    ((registerChain .usual ⟨false, ["tests", "ut", "..", "a"]⟩ ⟨false, ["tests", "ut", ".."]⟩).run
      handmadeList).disk.find? ["w", "tests", "CMakeLists.txt"] =
        some (.file (.text (BuildList.started "a"))) ∧
    ¬"# mine\n".toList <+: (BuildList.started "a").toList := by
  decide +kernel

end BuildTree

end Scaffold
