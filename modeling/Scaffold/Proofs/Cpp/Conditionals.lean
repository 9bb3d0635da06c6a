import Scaffold.Proofs.Cpp.Frames

/-!
# Conditionals around the members of a class

A conditional is looked into for classes, but the members of a class are read off its body
one by one, and what is in a conditional is not among them.

* `ClassFrame` -- a class around its members;
* `Directives` -- the directives of a conditional without further branches;
* `Members` -- the members of a class in three parts, with a conditional around the second
  or without;
* `guarded_class` -- **such a conditional takes the methods and the access specifiers in it
  out of the class**, and changes nothing else.
-/
namespace Scaffold.Cpp

open Scaffold.Cpp.Tree (Access Scope)

variable {scope : Scope} {parent parent' : Kind} {ts us run : List Tree} {a : Access}

/-! ## 1. Members one after the other -/

/-- Keywords and punctuation between members change nothing. -/
theorem methodsFrom_named (a : Access) (ts : List Tree) :
    Tree.methodsFrom a (ts.filter Tree.isNamed) = Tree.methodsFrom a ts := by
  induction ts generalizing a with
  | nil => rfl
  | cons t ts ih =>
    rw [Tree.methodsFrom]
    by_cases htoken : t.kind = .token
    · have hunnamed : ¬ t.isNamed = true := by simp [Tree.isNamed, htoken]
      rw [List.filter_cons_of_neg hunnamed, ih]
      simp [Tree.declares, htoken]
    · have hnamed : t.isNamed = true := by simp [Tree.isNamed, htoken]
      rw [List.filter_cons_of_pos hnamed, Tree.methodsFrom, ih, ih]

/-- Members after other members have the access that these leave. -/
theorem methodsFrom_append (a : Access) (ts us : List Tree) :
    Tree.methodsFrom a (ts ++ us) =
      Tree.methodsFrom a ts ++ Tree.methodsFrom (accessBehind a ts) us := by
  induction ts generalizing a with
  | nil => rfl
  | cons t ts ih =>
    rw [List.cons_append, Tree.methodsFrom, Tree.methodsFrom, accessBehind_cons]
    split
    · exact ih _
    · split
      · split
        · rw [ih, List.cons_append]
        · exact ih a
      · exact ih a

theorem accessBehind_append (a : Access) (ts us : List Tree) :
    accessBehind a (ts ++ us) = accessBehind (accessBehind a ts) us := by
  induction ts generalizing a with
  | nil => rfl
  | cons t ts ih => rw [List.cons_append, accessBehind_cons, accessBehind_cons, ih]

/-- Without access specifiers the access stays. -/
theorem accessBehind_self (h : ∀ t ∈ ts, t.kind ≠ .accessSpecifier) : accessBehind a ts = a := by
  have hnone : ts.reverse.find? (·.kind == .accessSpecifier) = none :=
    List.find?_eq_none.mpr fun t ht => by simpa using h t (List.mem_reverse.mp ht)
  rw [accessBehind, hnone]
  rfl

/-! ## 2. Conditionals -/

/-- The tree is a leaf. -/
def Tree.isLeaf : Tree → Bool
  | .leaf .. => true
  | .node .. => false

/-- The directives that begin and end a conditional without further branches. -/
structure Directives where
  opening : List Tree
  closing : List Tree
  leaves : ∀ t ∈ opening ++ closing, t.isLeaf = true

/-- The conditional around a run of trees. -/
def Directives.around (g : Directives) (run : List Tree) : Tree :=
  .node .conditional none (g.opening ++ run ++ g.closing)

variable {g : Directives}

theorem visitAll_leaves (h : ∀ t ∈ ts, t.isLeaf = true) :
    (Tree.visitAll scope parent ts).classes = [] := by
  induction ts with
  | nil => rfl
  | cons t ts ih =>
    obtain ⟨ht, hts⟩ := List.forall_mem_cons.mp h
    rw [visitAll_cons, ih hts]
    cases t with
    | leaf => rfl
    | node => cases ht

/-- What is found in a tree depends on the node around it only if that is a template. -/
theorem visit_parent (h : parent ≠ .templateDeclaration) (h' : parent' ≠ .templateDeclaration)
    (t : Tree) : t.visit scope parent = t.visit scope parent' := by
  have hname (u : Tree) : u.className? parent = u.className? parent' := by
    simp [Tree.className?, h, h']
  cases t with
  | leaf => rfl
  | node kind r cs =>
    rw [Tree.visit.eq_def, Tree.visit.eq_def]
    dsimp only
    rw [hname]

theorem visitAll_parent (h : parent ≠ .templateDeclaration) (h' : parent' ≠ .templateDeclaration)
    (ts : List Tree) : Tree.visitAll scope parent ts = Tree.visitAll scope parent' ts := by
  induction ts with
  | nil => rfl
  | cons t ts ih => rw [Tree.visitAll, Tree.visitAll, visit_parent h h' t, ih]

/-- **A conditional is transparent for the classes in it.** -/
theorem visit_around (h : parent ≠ .templateDeclaration) :
    ((g.around run).visit scope parent).classes = (Tree.visitAll scope parent run).classes := by
  obtain ⟨hopening, hclosing⟩ := List.forall_mem_append.mp g.leaves
  rw [Directives.around, visit_other (by decide) (by decide) (by decide) (by decide),
    visitAll_append, visitAll_append, visitAll_leaves hopening, visitAll_leaves hclosing,
    List.append_nil, visitAll_parent (by decide) h]
  rfl

/-- **But it is no member of a class itself.** -/
theorem methodsFrom_around (a : Access) :
    Tree.methodsFrom a (ts ++ g.around run :: us) = Tree.methodsFrom a (ts ++ us) := by
  have hother : (g.around run).kind = .conditional := rfl
  rw [methodsFrom_append, methodsFrom_append, Tree.methodsFrom]
  simp [Tree.declares, hother]

/-! ## 3. A class and its members -/

/-- A class or a struct around its body. -/
structure ClassFrame extends Frame where
  isClass : IsClass kind
  bodiless : ∀ t ∈ before, t.role ≠ some .body

namespace ClassFrame

variable (k : ClassFrame) {ms ns : List Tree}

/-- The class with the given members. -/
def holding (ms : List Tree) : Tree :=
  k.toFrame.node (.node .fieldDeclarationList (some .body) ms)

/-- The access of members in front of which no specifier stands. -/
def access : Access := if k.kind == .classSpecifier then .private else .public

theorem holdsBody_holding :
    k.toFrame.holdsBody (.node .fieldDeclarationList (some .body) ms) = true :=
  holdsBody_iff.mpr ⟨k.bodiless, rfl⟩

/-- Its members do not name a class. -/
theorem className?_holding : (⟨parent, false, k.holding ns⟩ : Standing).className? =
    (⟨parent, false, k.holding ms⟩ : Standing).className? :=
  className?_node (t := .node .fieldDeclarationList (some .body) ms) rfl k.holdsBody_holding

/-- The methods of a class are read off its members. -/
theorem classDecl_holding (name : String) :
    (k.holding ms).classDecl scope name (initialAccess (k.holding ms)) =
      { ClassDecl.describe name scope.namespaces scope.classes with
        methods := Tree.methodsFrom k.access ms } := by
  rw [holding, classDecl_node k.holdsBody_holding, Tree.methods, Tree.namedChildren,
    methodsFrom_named]
  rfl

/-- The methods of the description of a class. -/
theorem methods_of_describe {o : Occurrence} {d : ClassDecl} (hnode : o.here.node = k.holding ms)
    (hd : o.describe? = some d) : d.methods = Tree.methodsFrom k.access ms := by
  rw [Occurrence.describe?] at hd
  split at hd
  · obtain ⟨name, -, rfl⟩ := Option.map_eq_some_iff.mp hd
    dsimp only
    rw [← methodsFrom_eq, hnode, holding, child?_body k.holdsBody_holding, Option.map_some,
      Option.getD_some, Tree.namedChildren, methodsFrom_named]
    rfl
  · cases hd

/-- What is found in a class: the class and what is found in its members. -/
theorem visit_holding {name : String}
    (hname : (⟨parent, false, k.holding ms⟩ : Standing).className? = some name) :
    ((k.holding ms).visit scope parent).classes =
      { ClassDecl.describe name scope.namespaces scope.classes with
        methods := Tree.methodsFrom k.access ms } ::
      (Tree.visitAll ⟨scope.namespaces, scope.classes ++ [name]⟩ .fieldDeclarationList
        ms).classes := by
  have hvisit : (k.holding ms).visit scope parent = _ := visit_class k.isClass
  rw [← Frame.node, ← holding, hname] at hvisit
  replace hvisit := congrArg Tree.Findings.classes hvisit
  dsimp only at hvisit
  rwa [classes_append, visitBody_append k.bodiless rfl, Tree.visitBelow, classDecl_holding]
    at hvisit

/-- **Members that hold the same classes** make descriptions of the class that differ in the
methods, before the same classes nested in it. -/
theorem visit_congr {d : ClassDecl} {around : List Standing}
    (hsame : ∀ scope, (Tree.visitAll scope .fieldDeclarationList ns).classes =
      (Tree.visitAll scope .fieldDeclarationList ms).classes)
    (hd : (⟨around, ⟨parent, false, k.holding ms⟩⟩ : Occurrence).describe? = some d) :
    ∃ nested, ((k.holding ms).visit (scopeOf around) parent).classes = d :: nested ∧
      ((k.holding ns).visit (scopeOf around) parent).classes =
        { d with methods := Tree.methodsFrom k.access ns } :: nested := by
  obtain ⟨hreached, ⟨name, hname⟩, -⟩ := describe?_some hd
  have hnew : (⟨parent, false, k.holding ns⟩ : Standing).className? = some name :=
    k.className?_holding.trans hname
  rw [describe?_class hname hreached, classDecl_holding] at hd
  have hd := Option.some.inj hd
  refine ⟨_, (k.visit_holding hname).trans (congrArg (· :: _) hd), ?_⟩
  rw [k.visit_holding hnew, hsame, ← hd]

end ClassFrame

/-! ## 4. A conditional around some members -/

/-- The members of a class, a run of them taken apart from what is in front of it and behind
it. -/
structure Members where
  before : List Tree
  run : List Tree
  after : List Tree

namespace Members

/-- The members one after the other. -/
def plain (m : Members) : List Tree := m.before ++ m.run ++ m.after

/-- The members with a conditional around the run. -/
def guarded (m : Members) (g : Directives) : List Tree := m.before ++ g.around m.run :: m.after

variable (m : Members)

/-- The same classes are nested in the members. -/
theorem visitAll_guarded (scope : Scope) :
    (Tree.visitAll scope .fieldDeclarationList (m.guarded g)).classes =
      (Tree.visitAll scope .fieldDeclarationList m.plain).classes := by
  rw [guarded, plain, visitAll_append, visitAll_cons, visit_around (by decide), visitAll_append,
    visitAll_append, List.append_assoc]

/-- What the members declare with and without the conditional. -/
theorem methodsFrom_guarded_eq_iff (a : Access) :
    Tree.methodsFrom a (m.guarded g) = Tree.methodsFrom a m.plain ↔
      Tree.methodsFrom (accessBehind a m.before) m.after =
        Tree.methodsFrom (accessBehind a m.before) m.run ++
          Tree.methodsFrom (accessBehind a (m.before ++ m.run)) m.after := by
  rw [guarded, plain, methodsFrom_around, methodsFrom_append, methodsFrom_append,
    methodsFrom_append, List.append_assoc, List.append_cancel_left_eq]

end Members

/-- **A conditional around some members of a class** takes their methods and their access
specifiers out of the description of the class, and changes nothing else. The description of
the header stays the same exactly if the members behind the run then declare the methods that
the run and they declared before; without access specifiers in the run, exactly if the run
declares no public method. -/
theorem guarded_class (name : String) (fs : List Frame) (k : ClassFrame) (g : Directives)
    (m : Members) (d : ClassDecl)
    (hd : (occurrenceAt [] .translationUnit false fs (k.holding m.plain)).describe? = some d)
    (hunread : Unread fs (k.holding m.plain) (k.holding (m.guarded g))) :
    let plain := ((fill fs (k.holding m.plain)).describe name).classes
    let guarded := ((fill fs (k.holding (m.guarded g))).describe name).classes
    (∃ front back, plain = front ++ d :: back ∧
      guarded = front ++
        { d with methods := Tree.methodsFrom k.access (m.before ++ m.after) } :: back) ∧
    (guarded = plain ↔
      Tree.methodsFrom (accessBehind k.access m.before) m.after =
        Tree.methodsFrom (accessBehind k.access m.before) m.run ++
          Tree.methodsFrom (accessBehind k.access (m.before ++ m.run)) m.after) ∧
    ((∀ t ∈ m.run, t.kind ≠ .accessSpecifier) →
      (guarded = plain ↔ Tree.methodsFrom (accessBehind k.access m.before) m.run = [])) := by
  intro plain guarded
  obtain ⟨front, back, hplain, hguarded⟩ := found_fill (k.holding m.plain)
    (k.holding (m.guarded g)) k.isClass rfl rfl
    (fun around parent hd => k.visit_congr m.visitAll_guarded hd) fs [] .translationUnit false hd
    hunread
  have hplain : plain = front ++ d :: back := hplain
  have hguarded : guarded = front ++
      { d with methods := Tree.methodsFrom k.access (m.guarded g) } :: back := hguarded
  have hmethods : d.methods = Tree.methodsFrom k.access m.plain :=
    k.methods_of_describe (occurrenceAt_here fs _ _ _ _) hd
  have hsame : guarded = plain ↔
      Tree.methodsFrom k.access (m.guarded g) = Tree.methodsFrom k.access m.plain := by
    rw [hplain, hguarded, List.append_cancel_left_eq, List.cons.injEq, ← hmethods]
    refine ⟨fun h => congrArg ClassDecl.methods h.1, fun h => ⟨?_, rfl⟩⟩
    rw [h]
  rw [m.methodsFrom_guarded_eq_iff] at hsame
  rw [Members.guarded, methodsFrom_around] at hguarded
  refine ⟨⟨front, back, hplain, hguarded⟩, hsame, fun hspecifier => hsame.trans ?_⟩
  rw [accessBehind_append, accessBehind_self hspecifier]
  exact List.self_eq_append_left

/-- A class in a namespace, as the trees around it. -/
def demoFrames : List Frame :=
  [⟨.translationUnit, none, [], []⟩,
   ⟨.namespaceDefinition, none,
     [.leaf .token none [] "namespace".toList,
      .leaf .namespaceIdentifier (some .name) [' '] "demo".toList], []⟩,
   ⟨.declarationList, some .body, [.leaf .token none [' '] ['\x7b']],
     [.leaf .token none [] [';'], .leaf .token none [' '] ['\x7d']]⟩]

/-- A class around its members. -/
def fooFrame : ClassFrame where
  kind := .classSpecifier
  role := none
  before := [.leaf .token none [' '] "class".toList,
    .leaf .typeIdentifier (some .name) [' '] "Foo".toList]
  after := []
  isClass := .inl rfl
  bodiless := by decide

/-- A public method among the members of a class. -/
def runMembers : Members where
  before := [.leaf .token none [' '] ['\x7b'], .leaf .accessSpecifier none [' '] "public".toList,
    .leaf .token none [] [':']]
  run := [.node .fieldDeclaration none
    [.leaf .primitiveType (some .type) [' '] "void".toList,
     .node .functionDeclarator (some .declarator)
       [.leaf .fieldIdentifier (some .declarator) [' '] "run".toList,
        .node .parameterList (some .parameters)
          [.leaf .token none [] ['('], .leaf .token none [] [')']]],
     .leaf .token none [] [';']]]
  after := [.leaf .token none [' '] ['\x7d']]

/-- The directives of a conditional on a symbol. -/
def extraDirectives : Directives where
  opening := [.leaf .token none ['\n'] "#ifdef".toList,
    .leaf .identifier none [' '] "EXTRA".toList]
  closing := [.leaf .token none ['\n'] "#endif".toList]
  leaves := by decide

/-- A method with a conditional around it is lost. -/
theorem guarded_run_lost :
    ((fill demoFrames (fooFrame.holding (runMembers.guarded extraDirectives))).describe
        "foo.h").classes ≠
      ((fill demoFrames (fooFrame.holding runMembers.plain)).describe "foo.h").classes := by
  have hiff := (guarded_class "foo.h" demoFrames fooFrame extraDirectives runMembers
    { ClassDecl.describe "Foo" ["demo"] [] with methods := [Method.describe "run" "void" [] []] }
    (by decide +kernel) (by decide +kernel)).2.2 (by decide +kernel)
  exact fun hsame => absurd (hiff.mp hsame) (by decide +kernel)

/-- A header with a public method, and with a conditional around the method. -/
def plainText : String := "class Foo \x7b\npublic:\n    void run();\n\x7d;\n"

def guardedText : String :=
  "class Foo \x7b\npublic:\n#ifdef EXTRA\n    void run();\n#endif\n\x7d;\n"

/-- **A conditional is not transparent for the members of a class.** -/
theorem conditional_hides_method : (parse plainText.toList).hasError = false ∧
    (parse guardedText.toList).hasError = false ∧
    (describe "foo.h" plainText).classes =
      [{ ClassDecl.describe "Foo" [] [] with methods := [Method.describe "run" "void" [] []] }] ∧
    (describe "foo.h" guardedText).classes = [ClassDecl.describe "Foo" [] []] := by
  decide +kernel

end Scaffold.Cpp
