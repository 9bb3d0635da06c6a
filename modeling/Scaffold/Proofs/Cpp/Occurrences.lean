import Mathlib.Data.List.Chain
import Mathlib.Data.List.Infix
import Scaffold.Cpp.Describe

/-!
# The classes of a tree and where they stand

The walk that describes a header keeps the namespaces and classes around the place where
it is. Here every node of a tree is listed with the nodes around it, and what is described
is read off that list: the classes, and the namespaces and include directives as well.

* `Standing`, `Occurrence` -- a node with the way it stands in the node around it, and with
  all nodes around it;
* `Tree.occurrences` -- all nodes of a tree in pre-order;
* `Passes` -- which parts of a node are looked into;
* `Occurrence.describe?` -- the description of a node that is a class; `opened`, `include?`:
  the namespaces that a node opens, and the include directive that it is;
* `findings_from` -- **the walk finds in a tree what the nodes give that it comes to**, in
  pre-order; `describe_classes`: so the classes of a header are these descriptions.

The body of a namespace or a class stands for its members. Whatever kind of node it is, it
is no class, namespace or declaration of its own.
-/
namespace Scaffold.Cpp

open Scaffold.Cpp.Tree (Access Scope)

/-! ## 1. Nodes and what is around them -/

/-- A node and how it stands in the node around it. -/
structure Standing where
  /-- The kind of the node around it. -/
  parent : Kind
  /-- It is the body of the namespace or class around it. -/
  isBody : Bool
  node : Tree

namespace Standing

/-- A namespace or a class: what has a body of members. -/
def opensBody (s : Standing) : Bool :=
  !s.isBody && (s.node.kind == .namespaceDefinition || s.node.kind == .classSpecifier ||
    s.node.kind == .structSpecifier)

/-- The namespaces that a node opens. -/
def namespaces (s : Standing) : List String :=
  if !s.isBody && s.node.kind == .namespaceDefinition then
    (((s.node.child? .name).map Tree.namespaceNames).getD []).map String.ofList
  else []

/-- The name of the class that a node defines: a class or struct with a body and a plain
name, which is no template. -/
def className? (s : Standing) : Option String :=
  if !s.isBody && (s.node.kind == .classSpecifier || s.node.kind == .structSpecifier) &&
      s.parent != .templateDeclaration && (s.node.child? .body).isSome then
    ((s.node.child? .name).filter (·.kind == .typeIdentifier)).map fun n => String.ofList n.text
  else none

/-- The include directive that a node is; none when it has no operand. -/
def include? (s : Standing) : Option Include :=
  if !s.isBody && s.node.kind == .include then s.node.include? else none

end Standing

/-- A node of a tree with the nodes around it, outermost first. -/
structure Occurrence where
  around : List Standing
  here : Standing

namespace Tree

mutual

/-- The nodes of a tree in pre-order. -/
def occurrencesFrom (around : List Standing) (parent : Kind) (isBody : Bool) :
    Tree → List Occurrence
  | .leaf k r lead text => [⟨around, ⟨parent, isBody, .leaf k r lead text⟩⟩]
  | .node k r cs =>
    let here : Standing := ⟨parent, isBody, .node k r cs⟩
    ⟨around, here⟩ :: occurrencesBelow (around ++ [here]) k here.opensBody cs

/-- The nodes of the trees of a list; the first that plays the body is one, if a body is
expected. -/
def occurrencesBelow (around : List Standing) (parent : Kind) (expected : Bool) :
    List Tree → List Occurrence
  | [] => []
  | t :: ts =>
    let isBody := expected && t.role == some .body
    occurrencesFrom around parent isBody t ++
      occurrencesBelow around parent (expected && !isBody) ts

end

/-- Every node of a tree with the nodes around it, in pre-order. -/
def occurrences (t : Tree) : List Occurrence := occurrencesFrom [] .translationUnit false t

end Tree

/-! ## 2. What is described -/

/-- Whether the walk goes on from a node to a part of it. From a namespace or a class that
is described it goes on to the body alone; it does not go into other classes, include
directives and the bodies of functions. -/
def Passes (outer inner : Standing) : Bool :=
  outer.isBody || match outer.node.kind with
    | .namespaceDefinition => inner.isBody
    | .classSpecifier | .structSpecifier => outer.className?.isSome && inner.isBody
    | .include => false
    | .fieldDeclaration | .functionDefinition | .declaration =>
      inner.node.kind != .compoundStatement
    | _ => true

/-- The access of members behind some members of a class. -/
def accessBehind (initial : Access) (before : List Tree) : Access :=
  ((before.reverse.find? (·.kind == .accessSpecifier)).map Tree.access).getD initial

/-- The public members among the members of a class that declare something. -/
def publicMembers (initial : Access) (members : List Tree) : List Tree :=
  ((members.inits.zip members).filter fun m =>
    accessBehind initial m.1 == .public && m.2.declares).map Prod.snd

/-- The access of members in front of which no specifier stands. -/
def initialAccess (t : Tree) : Access :=
  if t.kind == .classSpecifier then .private else .public

namespace Occurrence

/-- The nodes from the root to the node. -/
def path (o : Occurrence) : List Standing := o.around ++ [o.here]

/-- The walk comes to the node. -/
def Reached (o : Occurrence) : Prop := List.IsChain (fun p q => Passes p q = true) o.path

instance (o : Occurrence) : Decidable o.Reached :=
  inferInstanceAs (Decidable (List.IsChain _ _))

/-- The description of a node that is a class: its public methods, and the namespaces and
classes around it. -/
def describe? (o : Occurrence) : Option ClassDecl :=
  if o.Reached then
    o.here.className?.map fun name =>
      { ClassDecl.describe name (o.around.flatMap Standing.namespaces)
          (o.around.filterMap Standing.className?) with
        methods := (publicMembers (initialAccess o.here.node)
          (((o.here.node.child? .body).map Tree.namedChildren).getD [])).filterMap
            Tree.method? }
  else none

/-- The namespaces that a node opens, if the walk comes to it. -/
def opened (o : Occurrence) : List String := if o.Reached then o.here.namespaces else []

/-- The include directive that a node is, if the walk comes to it. -/
def include? (o : Occurrence) : Option Include := if o.Reached then o.here.include? else none

/-- What is found at a node itself. -/
def found (o : Occurrence) : Tree.Findings := ⟨o.opened, o.describe?.toList, o.include?.toList⟩

end Occurrence

/-- What is found at the nodes of a list. -/
def findings (os : List Occurrence) : Tree.Findings :=
  ⟨os.flatMap Occurrence.opened, os.filterMap Occurrence.describe?,
    os.filterMap Occurrence.include?⟩

/-! ## 3. Methods -/

theorem accessBehind_cons (a : Access) (t : Tree) (before : List Tree) :
    accessBehind a (t :: before) =
      accessBehind (if t.kind == .accessSpecifier then t.access else a) before := by
  unfold accessBehind
  rw [List.reverse_cons, List.find?_append]
  cases before.reverse.find? (·.kind == .accessSpecifier) with
  | some s => rfl
  | none =>
    rw [Option.none_or, List.find?_singleton]
    split <;> rfl

theorem publicMembers_cons (a : Access) (t : Tree) (ts : List Tree) :
    publicMembers a (t :: ts) =
      (if a == .public && t.declares then [t] else []) ++
        publicMembers (if t.kind == .accessSpecifier then t.access else a) ts := by
  have hfirst : accessBehind a [] = a := rfl
  unfold publicMembers
  rw [List.inits_cons, List.zip_cons_cons, List.filter_cons, List.zip_map_left, List.filter_map,
    hfirst]
  simp only [Function.comp_def, Prod.map, accessBehind_cons, id_eq]
  split <;> simp [Function.comp_def]

/-- **The public methods of a class** are those of the members with the access of the
latest specifier in front of them. -/
theorem methodsFrom_eq (a : Access) (ts : List Tree) :
    Tree.methodsFrom a ts = (publicMembers a ts).filterMap Tree.method? := by
  induction ts generalizing a with
  | nil => rfl
  | cons t ts ih =>
    rw [publicMembers_cons, List.filterMap_append, Tree.methodsFrom]
    by_cases hspecifier : (t.kind == .accessSpecifier) = true
    · have hnone : t.declares = false := by
        rw [Tree.declares, eq_of_beq hspecifier]
        rfl
      rw [if_pos hspecifier, if_pos hspecifier, hnone, Bool.and_false, ih]
      rfl
    · rw [if_neg hspecifier, if_neg hspecifier, ← ih]
      split
      · cases hmethod : t.method? with
        | none => rw [List.filterMap_cons_none hmethod]; rfl
        | some m => rw [List.filterMap_cons_some hmethod]; rfl
      · rfl

/-! ## 4. What the walk does not come to -/

variable {around : List Standing} {parent kind : Kind} {isBody : Bool} {outer : Standing}
  {t : Tree} {ts : List Tree}

mutual

/-- The way to a node of a tree begins with the way to the tree. -/
theorem prefix_path (around : List Standing) (parent : Kind) (isBody : Bool) : ∀ t : Tree,
    ∀ o ∈ t.occurrencesFrom around parent isBody, around ++ [⟨parent, isBody, t⟩] <+: o.path
  | .leaf .., o, ho => by
      rw [Tree.occurrencesFrom, List.mem_singleton] at ho
      rw [ho]
      exact List.prefix_rfl
  | .node k r cs, o, ho => by
      rw [Tree.occurrencesFrom] at ho
      rcases List.mem_cons.mp ho with rfl | ho
      · exact List.prefix_rfl
      · exact prefix_path_below _ k _ cs o ho

theorem prefix_path_below (around : List Standing) (parent : Kind) (expected : Bool) :
    ∀ ts : List Tree, ∀ o ∈ Tree.occurrencesBelow around parent expected ts, around <+: o.path
  | [], o, ho => by
      rw [Tree.occurrencesBelow] at ho
      cases ho
  | t :: ts, o, ho => by
      rw [Tree.occurrencesBelow] at ho
      rcases List.mem_append.mp ho with ho | ho
      · exact (List.prefix_append _ _).trans (prefix_path around parent _ t o ho)
      · exact prefix_path_below around parent _ ts o ho

end

/-- A way goes on to a part of a node exactly if it comes to the node and there goes on. -/
theorem isChain_concat {R : Standing → Standing → Prop} {inner : Standing} :
    List.IsChain R (around ++ [outer] ++ [inner]) ↔
      List.IsChain R (around ++ [outer]) ∧ R outer inner := by
  rw [List.append_assoc, List.singleton_append, List.isChain_append_cons_cons]
  simp

theorem append_empty (a : Tree.Findings) : a ++ Tree.Findings.empty = a := by
  obtain ⟨namespaces, classes, includes⟩ := a
  change (⟨namespaces ++ [], classes ++ [], includes ++ []⟩ : Tree.Findings) = _
  simp only [List.append_nil]

theorem findings_append (os os' : List Occurrence) :
    findings (os ++ os') = findings os ++ findings os' := by
  unfold findings
  rw [List.flatMap_append, List.filterMap_append, List.filterMap_append]
  rfl

theorem findings_cons (o : Occurrence) (os : List Occurrence) :
    findings (o :: os) = o.found ++ findings os := by
  unfold findings
  rw [List.flatMap_cons, List.filterMap_cons, List.filterMap_cons]
  cases hclass : o.describe? <;> cases hinclude : o.include? <;>
  · rw [Occurrence.found, hclass, hinclude]
    rfl

/-- Nothing is found at what the walk does not come to. -/
theorem found_unreached {o : Occurrence} (h : ¬ o.Reached) : o.found = .empty := by
  rw [Occurrence.found, Occurrence.opened, Occurrence.describe?, Occurrence.include?, if_neg h,
    if_neg h, if_neg h]
  rfl

theorem findings_eq_empty {os : List Occurrence} (h : ∀ o ∈ os, o.found = .empty) :
    findings os = .empty := by
  induction os with
  | nil => rfl
  | cons o os ih =>
    obtain ⟨ho, hos⟩ := List.forall_mem_cons.mp h
    rw [findings_cons, ho, ih hos]
    rfl

/-- Nothing is found in a tree that the walk does not come to. -/
theorem findings_unreached
    (h : ¬ List.IsChain (fun p q => Passes p q = true) (around ++ [⟨parent, isBody, t⟩])) :
    findings (t.occurrencesFrom around parent isBody) = .empty := by
  refine findings_eq_empty fun o ho => found_unreached fun hreached => h ?_
  exact List.IsChain.prefix hreached (prefix_path around parent isBody t o ho)

/-- Nor in the parts of a node that lets none of them pass. -/
theorem findings_closed {expected : Bool}
    (h : ∀ t ∈ ts, ∀ b, (b = true → expected = true) → Passes outer ⟨kind, b, t⟩ = false) :
    findings (Tree.occurrencesBelow (around ++ [outer]) kind expected ts) = .empty := by
  induction ts generalizing expected with
  | nil => rfl
  | cons t ts ih =>
    obtain ⟨ht, hts⟩ := List.forall_mem_cons.mp h
    have hfewer (b : Bool) : (expected && b) = true → expected = true := fun hboth =>
      (Bool.and_eq_true_iff.mp hboth).1
    rw [Tree.occurrencesBelow, findings_append,
      ih fun u hu b hb => hts u hu b fun hbody => hfewer _ (hb hbody), append_empty]
    refine findings_unreached fun hchain => ?_
    have hpass := (isChain_concat.mp hchain).2
    rw [ht _ (hfewer _)] at hpass
    cases hpass

/-! ## 5. The walk by kinds of nodes -/

variable {r : Option Role} {cs : List Tree} {scope : Scope}

/-- A class or a struct. -/
abbrev IsClass (kind : Kind) : Prop := kind = .classSpecifier ∨ kind = .structSpecifier

/-- A declaration of something with a type. -/
abbrev IsDeclaration (kind : Kind) : Prop :=
  kind = .fieldDeclaration ∨ kind = .functionDefinition ∨ kind = .declaration

theorem classes_append (a b : Tree.Findings) : (a ++ b).classes = a.classes ++ b.classes := rfl

theorem className?_eq (h : IsClass t.kind) :
    (⟨parent, false, t⟩ : Standing).className? = (t.className? parent).map String.ofList := by
  have hkind : (t.kind == .classSpecifier || t.kind == .structSpecifier) = true := by
    rcases h with h | h <;> rw [h] <;> rfl
  rw [Standing.className?, Tree.className?, hkind]
  by_cases hparent : parent = .templateDeclaration
  · simp [hparent]
  · cases hbody : t.child? .body with
    | none => simp [hparent]
    | some body =>
      cases hname : t.child? .name with
      | none => simp
      | some name =>
        by_cases hplain : name.kind = .typeIdentifier <;> simp [hparent, hplain]

/-- What is neither a namespace nor a class has no body of members, and no name as one. -/
theorem plain_of_kind {s : Standing} (hspace : s.node.kind ≠ .namespaceDefinition)
    (hclass : ¬ IsClass s.node.kind) :
    s.opensBody = false ∧ s.namespaces = [] ∧ s.className? = none := by
  obtain ⟨hc, hs⟩ := not_or.mp hclass
  have hspace := beq_eq_false_iff_ne.mpr hspace
  have hc := beq_eq_false_iff_ne.mpr hc
  have hs := beq_eq_false_iff_ne.mpr hs
  simp [Standing.opensBody, Standing.namespaces, Standing.className?, hspace, hc, hs]

theorem include?_of_kind {s : Standing} (h : s.node.kind ≠ .include) : s.include? = none := by
  rw [Standing.include?, beq_eq_false_iff_ne.mpr h, Bool.and_false, if_neg Bool.false_ne_true]

theorem visit_namespace (h : kind = .namespaceDefinition) :
    Tree.visit scope parent (.node kind r cs) =
      ⟨(⟨parent, false, .node kind r cs⟩ : Standing).namespaces, [], []⟩ ++
        Tree.visitBody ⟨scope.namespaces ++
          (⟨parent, false, .node kind r cs⟩ : Standing).namespaces, scope.classes⟩ cs := by
  subst h
  rw [Tree.visit]
  rfl

theorem visit_class (h : IsClass kind) : Tree.visit scope parent (.node kind r cs) =
    match (⟨parent, false, .node kind r cs⟩ : Standing).className? with
    | none => .empty
    | some name =>
      ⟨[], [(Tree.node kind r cs).classDecl scope name (initialAccess (.node kind r cs))], []⟩ ++
        Tree.visitBody ⟨scope.namespaces, scope.classes ++ [name]⟩ cs := by
  rw [className?_eq (t := .node kind r cs) h]
  rcases h with rfl | rfl <;>
  · rw [Tree.visit]
    cases Tree.className? parent (.node _ r cs) <;> rfl

theorem visit_include : Tree.visit scope parent (.node .include r cs) =
    ⟨[], [], (⟨parent, false, .node .include r cs⟩ : Standing).include?.toList⟩ := by
  rw [Tree.visit]
  rfl

theorem visit_declaration (h : IsDeclaration kind) :
    Tree.visit scope parent (.node kind r cs) = Tree.visitOutside scope kind cs := by
  rcases h with rfl | rfl | rfl <;> rw [Tree.visit]

theorem visit_other (hspace : kind ≠ .namespaceDefinition) (hclass : ¬ IsClass kind)
    (hinclude : kind ≠ .include) (hdeclaration : ¬ IsDeclaration kind) :
    Tree.visit scope parent (.node kind r cs) = Tree.visitAll scope kind cs := by
  rw [Tree.visit.eq_def]
  dsimp only
  split <;> simp_all

theorem passes_class {s inner : Standing} (hbody : s.isBody = false) (h : IsClass s.node.kind) :
    Passes s inner = (s.className?.isSome && inner.isBody) := by
  rw [Passes, hbody, Bool.false_or]
  rcases h with h | h <;> rw [h]

theorem passes_namespace {s inner : Standing} (hbody : s.isBody = false)
    (h : s.node.kind = .namespaceDefinition) : Passes s inner = inner.isBody := by
  rw [Passes, hbody, Bool.false_or, h]

theorem passes_include {s inner : Standing} (hbody : s.isBody = false)
    (h : s.node.kind = .include) : Passes s inner = false := by
  rw [Passes, hbody, Bool.false_or, h]

theorem passes_declaration {s inner : Standing} (hbody : s.isBody = false)
    (h : IsDeclaration s.node.kind) :
    Passes s inner = (inner.node.kind != .compoundStatement) := by
  rw [Passes, hbody, Bool.false_or]
  rcases h with h | h | h <;> rw [h]

theorem passes_other {inner : Standing} (hspace : outer.node.kind ≠ .namespaceDefinition)
    (hclass : ¬ IsClass outer.node.kind) (hinclude : outer.node.kind ≠ .include)
    (hdeclaration : ¬ IsDeclaration outer.node.kind) : Passes outer inner = true := by
  rw [Passes]
  split <;> simp_all

/-! ## 6. The walk -/

/-- The namespaces and classes that the walk knows of at a node. -/
def scopeOf (around : List Standing) : Scope :=
  ⟨around.flatMap Standing.namespaces, around.filterMap Standing.className?⟩

theorem scopeOf_concat (s : Standing) : scopeOf (around ++ [s]) =
    ⟨(scopeOf around).namespaces ++ s.namespaces,
      (scopeOf around).classes ++ s.className?.toList⟩ := by
  unfold scopeOf
  rw [List.flatMap_append, List.filterMap_append]
  cases hname : s.className? <;> simp [hname]

/-- What opens no namespace and is no class changes nothing. -/
theorem scopeOf_plain {s : Standing} (hspaces : s.namespaces = []) (hname : s.className? = none) :
    scopeOf (around ++ [s]) = scopeOf around := by
  rw [scopeOf_concat, hspaces, hname]
  simp

/-- What is no class is not described. -/
theorem describe?_eq_none {o : Occurrence} (h : o.here.className? = none) : o.describe? = none := by
  rw [Occurrence.describe?, h]
  split <;> rfl

/-- What is described is a class that the walk comes to, in the classes around it. -/
theorem describe?_some {o : Occurrence} {c : ClassDecl} (h : o.describe? = some c) :
    o.Reached ∧ (∃ name, o.here.className? = some name) ∧
      c.outerClasses = o.around.filterMap Standing.className? := by
  rw [Occurrence.describe?] at h
  split at h
  · rename_i hreached
    obtain ⟨name, hname, rfl⟩ := Option.map_eq_some_iff.mp h
    exact ⟨hreached, ⟨name, hname⟩, rfl⟩
  · cases h

/-- A class is described as the walk describes it. -/
theorem describe?_class {name : String}
    (hname : (⟨parent, false, t⟩ : Standing).className? = some name)
    (h : List.IsChain (fun p q => Passes p q = true) (around ++ [⟨parent, false, t⟩])) :
    (⟨around, ⟨parent, false, t⟩⟩ : Occurrence).describe? =
      some (t.classDecl (scopeOf around) name (initialAccess t)) := by
  have hreached : (⟨around, ⟨parent, false, t⟩⟩ : Occurrence).Reached := h
  rw [Occurrence.describe?, if_pos hreached]
  dsimp only
  rw [hname, Option.map_some, Tree.classDecl]
  cases t.child? .body with
  | none => rfl
  | some body =>
    rw [Option.map_some, Option.getD_some, Option.map_some, Option.getD_some, Tree.methods,
      methodsFrom_eq]
    rfl

/-- What is found at a node that the walk comes to. -/
theorem found_reached
    (h : List.IsChain (fun p q => Passes p q = true) (around ++ [⟨parent, isBody, t⟩])) :
    (⟨around, ⟨parent, isBody, t⟩⟩ : Occurrence).found =
      ⟨(⟨parent, isBody, t⟩ : Standing).namespaces,
        (⟨around, ⟨parent, isBody, t⟩⟩ : Occurrence).describe?.toList,
        (⟨parent, isBody, t⟩ : Standing).include?.toList⟩ := by
  have hreached : (⟨around, ⟨parent, isBody, t⟩⟩ : Occurrence).Reached := h
  rw [Occurrence.found, Occurrence.opened, Occurrence.include?, if_pos hreached, if_pos hreached]

/-- What opens no namespace and is no class and no include directive gives nothing. -/
theorem found_plain_node {o : Occurrence} (hspaces : o.here.namespaces = [])
    (hname : o.here.className? = none) (hinclude : o.here.include? = none) :
    o.found = .empty := by
  rw [Occurrence.found, Occurrence.opened, Occurrence.include?, describe?_eq_none hname, hspaces,
    hinclude, ite_self, ite_self]
  rfl

mutual

/-- **What the walk finds in a tree** that it comes to: what the nodes of the tree give. -/
theorem findings_from (around : List Standing) (parent : Kind) : ∀ t : Tree,
    List.IsChain (fun p q => Passes p q = true) (around ++ [⟨parent, false, t⟩]) →
    findings (t.occurrencesFrom around parent false) = t.visit (scopeOf around) parent
  | .leaf k r lead text, _ => by
      -- a leaf has no parts, so it has no name, no body and no operand
      rw [Tree.occurrencesFrom, findings_cons, found_plain_node, Tree.visit]
      · rfl
      · simp [Standing.namespaces, Tree.child?, Tree.children]
      · simp [Standing.className?, Tree.child?, Tree.children]
      · simp [Standing.include?, Tree.include?, Tree.child?, Tree.children]
  | .node kind r cs, h => by
      rw [Tree.occurrencesFrom, findings_cons]
      by_cases hclass : IsClass kind
      · have hopens : (⟨parent, false, .node kind r cs⟩ : Standing).opensBody = true := by
          rcases hclass with rfl | rfl <;> rfl
        have hspaces : (⟨parent, false, .node kind r cs⟩ : Standing).namespaces = [] := by
          rcases hclass with rfl | rfl <;> rfl
        have hinclude : (⟨parent, false, .node kind r cs⟩ : Standing).include? = none :=
          include?_of_kind (by rcases hclass with rfl | rfl <;> exact fun h => nomatch h)
        have hpasses (b : Bool) (t : Tree) : Passes ⟨parent, false, .node kind r cs⟩ ⟨kind, b, t⟩ =
            ((⟨parent, false, .node kind r cs⟩ : Standing).className?.isSome && b) :=
          passes_class rfl hclass
        rw [visit_class hclass, hopens]
        cases hname : (⟨parent, false, .node kind r cs⟩ : Standing).className? with
        | none =>
          rw [found_plain_node hspaces hname hinclude]
          refine findings_closed fun t _ b _ => ?_
          rw [hpasses, hname]
          rfl
        | some name =>
          have hbodies := findings_bodies around ⟨parent, false, .node kind r cs⟩ kind cs h
            fun b t _ => by rw [hpasses, hname]; rfl
          rw [found_reached h, describe?_class hname h, hspaces, hinclude, hbodies, scopeOf_concat,
            hspaces, hname, List.append_nil]
          rfl
      · by_cases hspace : kind = .namespaceDefinition
        · subst hspace
          have hbodies := findings_bodies around ⟨parent, false, .node .namespaceDefinition r cs⟩
            .namespaceDefinition cs h fun b t _ => passes_namespace rfl rfl
          rw [found_reached h, describe?_eq_none rfl, visit_namespace rfl]
          refine congrArg (_ ++ ·) (hbodies.trans ?_)
          rw [scopeOf_concat]
          exact congrArg (fun names => Tree.visitBody ⟨_, names⟩ cs) (List.append_nil _)
        · obtain ⟨hcloses, hspaces, hname⟩ :=
            plain_of_kind (s := ⟨parent, false, .node kind r cs⟩) hspace hclass
          rw [hcloses]
          have hscope : scopeOf (around ++ [⟨parent, false, .node kind r cs⟩]) = scopeOf around :=
            scopeOf_plain hspaces hname
          by_cases hinclude : kind = .include
          · subst hinclude
            rw [found_reached h, describe?_eq_none hname, visit_include,
              findings_closed fun _ _ _ _ => passes_include rfl rfl]
            exact append_empty _
          · have hnone : (⟨parent, false, .node kind r cs⟩ : Standing).include? = none :=
              include?_of_kind hinclude
            rw [found_plain_node hspaces hname hnone]
            by_cases hdeclaration : IsDeclaration kind
            · rw [visit_declaration hdeclaration, ← hscope]
              exact findings_outside around _ kind cs h fun t _ =>
                passes_declaration rfl hdeclaration
            · rw [visit_other hspace hclass hinclude hdeclaration, ← hscope]
              exact findings_all around _ kind cs h fun t _ =>
                passes_other hspace hclass hinclude hdeclaration

/-- The same below a body. -/
theorem findings_body (around : List Standing) (parent : Kind) : ∀ t : Tree,
    List.IsChain (fun p q => Passes p q = true) (around ++ [⟨parent, true, t⟩]) →
    findings (t.occurrencesFrom around parent true) = t.visitBelow (scopeOf around)
  | .leaf k r lead text, _ => by
      rw [Tree.occurrencesFrom, findings_cons, found_plain_node rfl rfl rfl, Tree.visitBelow]
      rfl
  | .node kind r cs, h => by
      have hscope : scopeOf (around ++ [⟨parent, true, .node kind r cs⟩]) = scopeOf around :=
        scopeOf_plain rfl rfl
      rw [Tree.occurrencesFrom, findings_cons, found_plain_node rfl rfl rfl, Tree.visitBelow,
        ← hscope]
      exact findings_all around _ kind cs h fun t _ => rfl

/-- The same for the parts of a node that lets all of them pass. -/
theorem findings_all (around : List Standing) (outer : Standing) (kind : Kind) : ∀ ts : List Tree,
    List.IsChain (fun p q => Passes p q = true) (around ++ [outer]) →
    (∀ t ∈ ts, Passes outer ⟨kind, false, t⟩ = true) →
    findings (Tree.occurrencesBelow (around ++ [outer]) kind false ts) =
      Tree.visitAll (scopeOf (around ++ [outer])) kind ts
  | [], _, _ => rfl
  | t :: ts, h, hpass => by
      obtain ⟨ht, hts⟩ := List.forall_mem_cons.mp hpass
      have hfirst := findings_from (around ++ [outer]) kind t (isChain_concat.mpr ⟨h, ht⟩)
      have hrest := findings_all around outer kind ts h hts
      rw [Tree.occurrencesBelow, findings_append, Tree.visitAll]
      exact congrArg₂ _ hfirst hrest

/-- The same for the parts of a declaration. -/
theorem findings_outside (around : List Standing) (outer : Standing) (kind : Kind) :
    ∀ ts : List Tree,
    List.IsChain (fun p q => Passes p q = true) (around ++ [outer]) →
    (∀ t ∈ ts, Passes outer ⟨kind, false, t⟩ = (t.kind != .compoundStatement)) →
    findings (Tree.occurrencesBelow (around ++ [outer]) kind false ts) =
      Tree.visitOutside (scopeOf (around ++ [outer])) kind ts
  | [], _, _ => rfl
  | t :: ts, h, hpass => by
      obtain ⟨ht, hts⟩ := List.forall_mem_cons.mp hpass
      have hrest := findings_outside around outer kind ts h hts
      rw [Tree.occurrencesBelow, findings_append, Tree.visitOutside]
      refine congrArg₂ _ ?_ hrest
      by_cases hkind : t.kind = .compoundStatement
      · rw [hkind] at ht
        rw [hkind]
        refine findings_unreached fun hchain => ?_
        exact absurd ((isChain_concat.mp hchain).2.symm.trans ht) (by decide)
      · have hother : (t.kind == .compoundStatement) = false := beq_eq_false_iff_ne.mpr hkind
        rw [hother, if_neg Bool.false_ne_true]
        exact findings_from (around ++ [outer]) kind t
          (isChain_concat.mpr ⟨h, ht.trans (by rw [bne, hother]; rfl)⟩)

/-- The same for the parts of a node that lets its body pass. -/
theorem findings_bodies (around : List Standing) (outer : Standing) (kind : Kind) :
    ∀ ts : List Tree,
    List.IsChain (fun p q => Passes p q = true) (around ++ [outer]) →
    (∀ b, ∀ t ∈ ts, Passes outer ⟨kind, b, t⟩ = b) →
    findings (Tree.occurrencesBelow (around ++ [outer]) kind true ts) =
      Tree.visitBody (scopeOf (around ++ [outer])) ts
  | [], _, _ => rfl
  | t :: ts, h, hpass => by
      have hrest : ∀ b, ∀ u ∈ ts, Passes outer ⟨kind, b, u⟩ = b := fun b u hu =>
        hpass b u (List.mem_cons_of_mem t hu)
      rw [Tree.occurrencesBelow, findings_append, Tree.visitBody, Bool.true_and]
      by_cases hbody : (t.role == some .body) = true
      · rw [if_pos hbody, hbody, Bool.not_true, Bool.and_false, findings_closed fun u hu b hb => ?_,
          append_empty]
        · exact findings_body (around ++ [outer]) kind t
            (isChain_concat.mpr ⟨h, hpass true t List.mem_cons_self⟩)
        · rw [hrest b u hu]
          exact eq_false_of_ne_true fun htrue => Bool.false_ne_true (hb htrue)
      · rw [if_neg hbody, eq_false_of_ne_true hbody, Bool.not_false, Bool.and_true,
          findings_unreached]
        · exact findings_bodies around outer kind ts h hrest
        · intro hchain
          have hfalse := (isChain_concat.mp hchain).2
          rw [hpass false t List.mem_cons_self] at hfalse
          cases hfalse

end

/-- **What the walk describes in a tree** that it comes to. -/
theorem describe_from (around : List Standing) (parent : Kind) (t : Tree)
    (h : List.IsChain (fun p q => Passes p q = true) (around ++ [⟨parent, false, t⟩])) :
    (t.occurrencesFrom around parent false).filterMap Occurrence.describe? =
      (t.visit (scopeOf around) parent).classes :=
  congrArg Tree.Findings.classes (findings_from around parent t h)

/-- **The namespaces of a header** are those that the nodes of its tree open. -/
theorem describe_opened (name : String) (t : Tree) :
    (t.describe name).namespaces = t.occurrences.flatMap Occurrence.opened :=
  congrArg Tree.Findings.namespaces (findings_from [] .translationUnit t
    (List.isChain_singleton _)).symm

/-- **The include directives of a header** are those among the nodes of its tree. -/
theorem describe_includes (name : String) (t : Tree) :
    (t.describe name).includes = t.occurrences.filterMap Occurrence.include? :=
  congrArg Tree.Findings.includes (findings_from [] .translationUnit t
    (List.isChain_singleton _)).symm

/-- **The classes of a header are the descriptions of the class nodes of its tree**, in
pre-order: each with the namespaces and classes around it, and with the public ones of its
methods. -/
theorem describe_classes (name : String) (t : Tree) :
    (t.describe name).classes = t.occurrences.filterMap Occurrence.describe? :=
  (describe_from [] .translationUnit t (List.isChain_singleton _)).symm

/-- A class in the list of bases of another class. -/
def baseText : String := "struct A : B<struct C \x7b int f(); \x7d> \x7b void g(); \x7d;\n"

/-- The same rule with every part of a class that is described let through. -/
def PassesParts (outer inner : Standing) : Bool := Passes outer inner || outer.className?.isSome

/-- **Of a class nothing but its body is looked into**: a class in its list of bases is a
class with a body and a plain name, but it is not described. -/
theorem base_not_described : (parse baseText.toList).hasError = false ∧
    (∃ o ∈ (parse baseText.toList).occurrences, o.here.className? = some "C" ∧
      List.IsChain (fun p q => PassesParts p q = true) o.path) ∧
    ∀ c ∈ (describe "foo.h" baseText).classes, c.name ≠ "C" := by
  decide +kernel

end Scaffold.Cpp
