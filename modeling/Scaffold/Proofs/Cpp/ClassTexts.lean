import Scaffold.Proofs.Cpp.Members

/-!
# Classes as they are declared

The header of an interface declares a class with its public members between braces.

* `Paired` -- every brace that is opened among some tokens is closed there;
* `takes_class` -- **a class is read as an item**, and the methods that are described of it are
  its methods with the bounds of their parameters turned;
* `visit_quiet` -- the walk finds nothing in trees without a class;
* `visit_class` -- **it finds the class**.
-/
namespace Scaffold.Cpp

open Grammar
open Pattern

variable {ts us rest : List Token} {t u : Token} {a b : List Tree} {lead w : List Char} {k : Kind}
  {Ms : List MethodText}

/-! ## 1. Braces -/

/-- Every brace that is opened among the tokens is closed there, so that a brace around them is
closed behind them. -/
def Paired (ts : List Token) : Prop := ∀ d us,
  (groupRest '{' '}' d us).isSome = true → (groupRest '{' '}' d (ts ++ us)).isSome = true

theorem Paired.nil : Paired [] := fun _ _ h => h

theorem Paired.append (h : Paired ts) (h' : Paired us) : Paired (ts ++ us) := fun d vs hvs => by
  rw [List.append_assoc]
  exact h d _ (h' d vs hvs)

/-- A token that is no brace. -/
theorem Paired.cons (ht : t.sort = .mark → t.text ≠ ['{'] ∧ t.text ≠ ['}']) (h : Paired ts) :
    Paired (t :: ts) := fun d us hus => by
  have hclose : ¬ (t.sort == .mark && t.text == ['}']) = true := fun hboth => by
    obtain ⟨hsort, htext⟩ := Bool.and_eq_true_iff.mp hboth
    exact (ht (eq_of_beq hsort)).2 (eq_of_beq htext)
  have hopen : ¬ (t.sort == .mark && t.text == ['{']) = true := fun hboth => by
    obtain ⟨hsort, htext⟩ := Bool.and_eq_true_iff.mp hboth
    exact (ht (eq_of_beq hsort)).1 (eq_of_beq htext)
  have hmore := h d us hus
  rw [List.cons_append, groupRest.eq_def]
  simpa only [hclose, hopen, if_false, Option.isSome_map, Bool.false_eq_true] using hmore

theorem Clear.paired (h : Clear ts) : Paired ts := by
  have hmarks : ∀ c ∈ plainMarks, [c] ≠ ['{'] ∧ [c] ≠ ['}'] :=
    List.forall_iff_forall_mem.mp (by decide)
  have hsimple := h.simple
  clear h
  induction ts with
  | nil => exact .nil
  | cons t ts ih =>
    obtain ⟨ht, hts⟩ := List.forall_mem_cons.mp hsimple
    refine .cons (fun hsort => ?_) (ih hts)
    obtain ⟨hword, -⟩ | ⟨hnumber, -⟩ | ⟨-, c, hc, htext⟩ := ht.text
    · rw [hsort] at hword
      cases hword
    · rw [hsort] at hnumber
      cases hnumber
    · rw [htext]
      exact hmarks c hc

/-- Tokens between braces. -/
theorem Paired.braces (h : Paired ts) (lead lead' : List Char) :
    Paired (markToken lead '{' :: (ts ++ [markToken lead' '}'])) := fun d us hus => by
  have hclose : (groupRest '{' '}' (d + 1) (markToken lead' '}' :: us)).isSome = true := by
    rw [groupRest.eq_def]
    simpa using hus
  have hmore := h (d + 1) _ hclose
  rw [List.cons_append, List.append_assoc, List.singleton_append, groupRest.eq_def]
  simpa using hmore

/-- **A brace is closed behind the tokens that stand between it and its partner.** -/
theorem takes_closed (h : Paired ts) (lead lead' : List Char) (rest : List Token) :
    Takes grammar (.closed '{' '}') (markToken lead '{' :: (ts ++ markToken lead' '}' :: rest)) []
      (markToken lead '{' :: (ts ++ markToken lead' '}' :: rest)) := by
  have hclose : (groupRest '{' '}' 0 (markToken lead' '}' :: rest)).isSome = true := rfl
  obtain ⟨x, hx⟩ := Option.isSome_iff_exists.mp (h 0 _ hclose)
  refine .closed (x := (.leaf .token none lead ['{'] :: x.1, x.2)) ?_
  rw [bracket]
  change (groupRest '{' '}' 0 _).bind _ = _
  rw [hx]
  rfl

/-- A block is read up to its closing brace, with the comments in front of it. -/
theorem takes_braced {x : Rule} {before : List Tree} {mid : List Token} {lead' : List Char}
    (h : Paired ts) (hread : Takes grammar (.items (.rule x) closing)
      (ts ++ markToken lead' '}' :: rest) a mid)
    (hmid : splitComments mid = (before, markToken lead' '}' :: rest)) (lead : List Char) :
    Takes grammar (braced x) (markToken lead '{' :: (ts ++ markToken lead' '}' :: rest))
      ((markToken lead '{').leaf .token ::
        (a ++ (before ++ [(markToken lead' '}').leaf .token]))) rest :=
  .skip (takes_closed h lead lead' rest)
    (.cons (takes_mark rfl) (hread.append (.last (.mark rfl hmid rfl rfl))))

/-! ## 2. Members in braces -/

/-- What stands between the braces of a class. -/
def bodyTokens (w : List Char) (Ms : List MethodText) : List Token :=
  wordToken ['\n'] "public".toList :: markToken [] ':' :: memberTokens w Ms

/-- How the members of a class begin, or what is behind them. -/
def memberStarts : List Look := .mark '}' :: .word frontWords :: baseStarts

theorem ahead_members (hMs : ∀ M ∈ Ms, M.Valid) (w lead : List Char) (rest : List Token) :
    Ahead memberStarts (memberTokens w Ms ++ markToken lead '}' :: rest) := by
  have hmethods : Ahead memberStarts (methodTokens Ms ++ markToken lead '}' :: rest) := by
    cases Ms with
    | nil => exact ahead_mark List.mem_cons_self
    | cons M Ms =>
      obtain ⟨Q⟩ := (hMs M List.mem_cons_self).parts memberLead
      rw [methodTokens, List.flatMap_cons, List.append_assoc]
      exact (Q.begins _).ahead.mono fun _ => List.mem_cons_of_mem _
  unfold memberTokens
  split
  · exact ahead_cons (l := .word frontWords) (by simp [memberStarts]) ⟨rfl, by simp [frontWords]⟩
  · exact hmethods

theorem clear_body (hw : IsName w) (hMs : ∀ M ∈ Ms, M.Valid) : Clear (bodyTokens w Ms) :=
  .word (by decide) (by decide) (.mark rfl) (.mark (by decide) (by decide) (clear_members hw hMs))

/-- **The members of a class are read between braces**, and its methods are described. -/
theorem takes_memberList (hw : IsName w) (hMs : ∀ M ∈ Ms, M.Valid) (rest : List Token) :
    ∃ a, (∀ t ∈ a, t.Quiet) ∧
      (Tree.node .fieldDeclarationList (some .body) a).methods .private =
        Ms.map (·.turned.method) ∧
      Takes grammar (.rule .memberList)
        (markToken ['\n'] '{' :: (bodyTokens w Ms ++ markToken ['\n'] '}' :: rest))
        [.node .fieldDeclarationList none a] rest := by
  obtain ⟨a, ha, hread⟩ := takes_members hw hMs ['\n'] rest
  have hpublic : (Look.word ["public"]).Fits (wordToken ['\n'] "public".toList) := ⟨rfl, by simp⟩
  have hcolon : Takes grammar colon (markToken [] ':' ::
      (memberTokens w Ms ++ markToken ['\n'] '}' :: rest)) [(markToken [] ':').leaf .token]
      (memberTokens w Ms ++ markToken ['\n'] '}' :: rest) := by
    refine .skip (.without (fails_of_ahead₂ (l := .mark ':') ⟨rfl, rfl⟩
      (ahead_members hMs w ['\n'] rest) (by decide))) (takes_mark rfl).last
  have hlabel : Takes grammar (.rule .member) (bodyTokens w Ms ++ markToken ['\n'] '}' :: rest)
      [(wordToken ['\n'] "public".toList).leaf .accessSpecifier, (markToken [] ':').leaf .token]
      (memberTokens w Ms ++ markToken ['\n'] '}' :: rest) :=
    takes_alternative 3 rfl rfl (sees_one hpublic) (by decide)
      (.cons (takes_look rfl hpublic (by decide)) hcolon.last)
  have hitems : Takes grammar (.items (.rule .member) closing)
      (bodyTokens w Ms ++ markToken ['\n'] '}' :: rest) _ (markToken ['\n'] '}' :: rest) :=
    .items_cons (fails_of_glance (sees_one hpublic) (by decide)) hlabel hread
  refine ⟨_, ?_, ?_,
    .rule (.node_front rfl (takes_braced (clear_body hw hMs).paired hitems rfl ['\n']))⟩
  · refine List.forall_mem_cons.mpr ⟨.leaf, List.forall_mem_append.mpr
      ⟨List.forall_mem_cons.mpr ⟨.leaf, List.forall_mem_cons.mpr ⟨.leaf, ha.quiet⟩⟩,
        List.forall_mem_singleton.mpr .leaf⟩⟩
  · have hclose : [(markToken ['\n'] '}').leaf .token].filter Tree.isNamed = [] := rfl
    change Tree.methodsFrom .public
      ((a ++ [(markToken ['\n'] '}').leaf .token]).filter Tree.isNamed) = _
    rw [List.filter_append, hclose, List.append_nil, ha.methods]

/-! ## 3. Classes -/

/-- A class up to its name. -/
def headTokens (lead w : List Char) : List Token :=
  [wordToken lead "class".toList, wordToken [' '] w]

/-- A class. -/
def classTokens (lead w : List Char) (Ms : List MethodText) : List Token :=
  headTokens lead w ++ markToken ['\n'] '{' ::
    (bodyTokens w Ms ++ [markToken ['\n'] '}', markToken [] ';'])

/-- The tree of a class. -/
def classTree (lead w : List Char) (a : List Tree) : Tree :=
  .node .classSpecifier none [(wordToken lead "class".toList).leaf .token,
    ((wordToken [' '] w).leaf .typeIdentifier).withRole .name,
    (Tree.node .fieldDeclarationList none a).withRole .body]

/-- The name of a class. -/
theorem takes_className (hw : IsName w) (hrest : Sees [.mark '{'] rest) :
    Takes grammar (.rule .typeName) (wordToken [' '] w :: rest)
      [(wordToken [' '] w).leaf .typeIdentifier] rest := by
  have hname := hw.fits [' ']
  have hsegment := takes_segment hw [' '] false (fails_of_glance hrest (by decide))
  refine .rule (.shapeless_front (splitComments_of_ne hname.ne_comment)
    (.cons (.next ?_ (.first hsegment)) (.skip (.star_nil ?_) (.skip (.without ?_)
      (.last (.next ?_ (.first .nil)))))) rfl)
  · exact fails_of_glance (sees_one hname) (by decide)
  all_goals exact fails_of_glance hrest (by decide)

/-- **A class is read as a type**, up to the semicolon behind it. -/
theorem takes_classType (hw : IsName w) (lead : List Char)
    (hbody : Takes grammar (.rule .memberList) (markToken ['\n'] '{' :: ts)
      [.node .fieldDeclarationList none a] (markToken [] ';' :: rest)) :
    Takes grammar (.rule .type) (headTokens lead w ++ markToken ['\n'] '{' :: ts)
      [classTree lead w a] (markToken [] ';' :: rest) := by
  have hclass : (Look.word ["class"]).Fits (wordToken lead "class".toList) := ⟨rfl, by simp⟩
  have hname := hw.fits [' ']
  have hbrace : Sees [.mark '{'] (markToken ['\n'] '{' :: ts) := sees_mark
  have hnamed : Takes grammar
      (opt (.seq [.without (.seq [.word "final", .alts [.mark "\x7b", .mark ":"]]),
      .role .name (.rule .typeName)])) (wordToken [' '] w :: markToken ['\n'] '{' :: ts)
      [((wordToken [' '] w).leaf .typeIdentifier).withRole .name] (markToken ['\n'] '{' :: ts) :=
    .first (.skip (.without (fails_of_glance (sees_one hname) (by decide)))
      (takes_className hw hbrace).role.last)
  refine .rule (.first (.rule (.shaped_front (splitComments_of_ne hclass.ne_comment)
    (.cons (takes_look rfl hclass (by decide)) (.skip (.star_nil ?_) (.append
      (.first (.cons hnamed (.skip (.next ?_ (.first .nil)) (.skip (.next ?_ (.first .nil))
        hbody.role.last)))) (.last (.star_nil ?_))))) rfl)))
  · exact fails_of_glance (sees_one hname) (by decide)
  · exact fails_of_glance hbrace (by decide)
  · exact fails_of_glance hbrace (by decide)
  · exact fails_of_glance sees_mark (by decide)

/-- What is told of some tokens is told of them behind comments. -/
theorem sees_behind {ls : List Look} {before : List Tree} (hts : splitComments ts = (before, us))
    (hus : Uncommented us) (h : Sees ls us) : Sees ls ts := by
  cases ls with
  | nil => trivial
  | cons l ls =>
    unfold Sees at h ⊢
    rw [hts]
    rwa [hus] at h

/-- **A class is read as an item**, also behind comments. -/
theorem takes_class (hw : IsName w) (hMs : ∀ M ∈ Ms, M.Valid) (lead : List Char)
    (rest : List Token) : ∃ a, (∀ t ∈ a, t.Quiet) ∧
      (Tree.node .fieldDeclarationList (some .body) a).methods .private =
        Ms.map (·.turned.method) ∧
      ∀ before ts, splitComments ts = (before, classTokens lead w Ms ++ rest) →
        Takes grammar (.rule .item) ts
          (before ++ [(classTree lead w a).withRole .type,
            (markToken [] ';').leaf .token]) rest := by
  obtain ⟨a, hquiet, hmethods, hbody⟩ := takes_memberList hw hMs (markToken [] ';' :: rest)
  refine ⟨a, hquiet, hmethods, fun before ts hts => ?_⟩
  have htype := takes_classType hw lead hbody
  have htokens : classTokens lead w Ms ++ rest = headTokens lead w ++ markToken ['\n'] '{' ::
      (bodyTokens w Ms ++ markToken ['\n'] '}' :: markToken [] ';' :: rest) := by
    simp [classTokens]
  rw [htokens] at hts
  have hclass : (Look.word ["class"]).Fits (wordToken lead "class".toList) := ⟨rfl, by simp⟩
  have hsees : Sees [.word ["class"], .name] ts :=
    sees_behind hts (splitComments_of_ne hclass.ne_comment)
      (sees_cons hclass (sees_one (hw.fits [' '])))
  have hspecifiers : Takes grammar (.rule .specifiers) (headTokens lead w ++ markToken ['\n'] '{' ::
      (bodyTokens w Ms ++ markToken ['\n'] '}' :: markToken [] ';' :: rest))
      [(classTree lead w a).withRole .type] (markToken [] ';' :: rest) := by
    refine .rule (.skip (.star_nil ?_) (.cons htype.role (.last (.star_nil ?_))))
    · exact fails_of_glance (sees_one hclass) (by decide)
    · exact fails_of_glance sees_mark (by decide)
  exact takes_alternative 16 rfl rfl hsees (by decide) (.rule (.shapeless hts
    (.skip (.without (fails_of_glance (sees_one hclass) (by decide)))
      (.cons hspecifiers (.last (.first (takes_mark rfl))))) rfl))

/-! ## 4. The walk -/

theorem visitAll_quiet {scope : Tree.Scope} (h : ∀ t ∈ a, t.visit scope k = .empty) :
    Tree.visitAll scope k a = .empty := by
  induction a with
  | nil => rfl
  | cons t ts ih =>
    obtain ⟨ht, hts⟩ := List.forall_mem_cons.mp h
    rw [Tree.visitAll, ht, ih hts]
    rfl

/-- **The walk finds nothing in trees without a class.** -/
theorem visit_quiet {x : Tree} (h : x.Quiet) (scope : Tree.Scope) (parent : Kind) :
    x.visit scope parent = .empty := by
  induction h generalizing parent with
  | leaf => rfl
  | @node k r cs hk h ih =>
    have hall := visitAll_quiet fun t ht => ih t ht k
    have houtside : Tree.visitOutside scope k cs = .empty := by
      clear hall h
      induction cs with
      | nil => rfl
      | cons t ts ihs =>
        obtain ⟨ht, hts⟩ := List.forall_mem_cons.mp ih
        rw [Tree.visitOutside, ht k, ite_self, ihs hts]
        rfl
    simp only [Kind.isLoud, Bool.or_eq_false_iff, beq_eq_false_iff_ne] at hk
    obtain ⟨⟨⟨hspace, hclass⟩, hstruct⟩, hinclude⟩ := hk
    by_cases hdeclaration : IsDeclaration k
    · rw [visit_declaration hdeclaration, houtside]
    · rw [visit_other hspace (not_or.mpr ⟨hclass, hstruct⟩) hinclude hdeclaration, hall]

/-- **The walk finds the class**, and nothing inside it. -/
theorem visit_classTree (lead w : List Char) (h : ∀ t ∈ a, t.Quiet) (scope : Tree.Scope)
    {parent : Kind} (hparent : parent ≠ .templateDeclaration) :
    ((classTree lead w a).withRole .type).visit scope parent =
      ⟨[], [{ ClassDecl.describe (String.ofList w) scope.namespaces scope.classes with
        methods := (Tree.node .fieldDeclarationList (some .body) a).methods .private }], []⟩ := by
  have hname : ((classTree lead w a).withRole .type).className? parent = some w := by
    rw [Tree.className?, if_neg (by simpa using hparent)]
    rfl
  have hbody : Tree.visitBody ⟨scope.namespaces, scope.classes ++ [String.ofList w]⟩
      ((classTree lead w a).withRole .type).children = .empty :=
    visitAll_quiet fun t ht => visit_quiet (h t ht) _ _
  have hstanding : (⟨parent, false, (classTree lead w a).withRole .type⟩ : Standing).className? =
      some (String.ofList w) := by
    rw [className?_eq (.inl rfl), hname]
    rfl
  refine (visit_class (.inl rfl)).trans ?_
  split
  · rename_i hnone
    exact absurd (hstanding.symm.trans hnone) (Option.some_ne_none _)
  · rename_i name hsome
    obtain rfl := Option.some.inj (hstanding.symm.trans hsome)
    exact congrArg (Tree.Findings.append ⟨[], [_], []⟩) hbody

end Scaffold.Cpp
