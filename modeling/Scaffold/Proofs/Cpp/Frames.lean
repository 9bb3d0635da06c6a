import Scaffold.Proofs.Cpp.Occurrences

/-!
# Changing a class in its place

A tree with a hole is given by its frames, the nodes around the hole.

* `Frame`, `fill` -- the nodes around a hole, outermost first, and the tree with the hole
  filled;
* `occurrenceAt` -- what stands in the hole, with the nodes around it;
* `Unread` -- what is declared around a class does not depend on what is inside it;
* `found_fill` -- **when a class is changed in its place, so is its description, and nothing
  else that is found in the tree**.
-/
namespace Scaffold.Cpp

open Scaffold.Cpp.Tree (Access Scope)

/-! ## 1. Frames -/

/-- A node with a hole among its parts. -/
structure Frame where
  kind : Kind
  role : Option Role
  before : List Tree
  after : List Tree

/-- The node with its hole filled. -/
def Frame.node (f : Frame) (t : Tree) : Tree := .node f.kind f.role (f.before ++ t :: f.after)

/-- The tree around a hole, filled. -/
def fill : List Frame → Tree → Tree
  | [], t => t
  | f :: fs, t => f.node (fill fs t)

/-- The first part of a node that plays the body stands in its hole. -/
def Frame.holdsBody (f : Frame) (t : Tree) : Bool :=
  !f.before.any (·.role == some .body) && t.role == some .body

/-- What stands in the hole, with the nodes around it. -/
def occurrenceAt (around : List Standing) (parent : Kind) (isBody : Bool) :
    List Frame → Tree → Occurrence
  | [], t => ⟨around, ⟨parent, isBody, t⟩⟩
  | f :: fs, t =>
    let here : Standing := ⟨parent, isBody, f.node (fill fs t)⟩
    occurrenceAt (around ++ [here]) f.kind (here.opensBody && f.holdsBody (fill fs t)) fs t

variable {f : Frame} {fs : List Frame} {s t u c c' : Tree} {around : List Standing}
  {parent kind : Kind} {isBody : Bool} {ts us : List Tree} {scope : Scope} {d d' : ClassDecl}

/-- The parts in front of a part and the part itself. -/
theorem mem_occurrencesBelow {o : Occurrence} : ∀ {ts : List Tree} {expected : Bool},
    o ∈ t.occurrencesFrom around kind
      (expected && (!ts.any (·.role == some .body) && t.role == some .body)) →
    o ∈ Tree.occurrencesBelow around kind expected (ts ++ t :: us)
  | [], expected, h => by
      rw [List.nil_append, Tree.occurrencesBelow]
      exact List.mem_append_left _ h
  | s :: ts, expected, h => by
      rw [List.cons_append, Tree.occurrencesBelow]
      refine List.mem_append_right _ (mem_occurrencesBelow ?_)
      rw [List.any_cons] at h
      cases expected <;> cases hs : s.role == some Role.body <;> simpa [hs] using h

/-- **What stands in the hole is a node of the tree.** -/
theorem occurrenceAt_mem (fs : List Frame) (t : Tree) (around : List Standing) (parent : Kind)
    (isBody : Bool) :
    occurrenceAt around parent isBody fs t ∈ (fill fs t).occurrencesFrom around parent isBody := by
  induction fs generalizing around parent isBody with
  | nil =>
    cases t with
    | leaf k r lead text => exact List.mem_singleton_self _
    | node k r cs =>
      rw [fill, Tree.occurrencesFrom]
      exact List.mem_cons_self
  | cons f fs ih =>
    rw [fill, Frame.node, Tree.occurrencesFrom]
    exact List.mem_cons_of_mem _ (mem_occurrencesBelow (ih _ _ _))

theorem occurrenceAt_here (fs : List Frame) (t : Tree) (around : List Standing) (parent : Kind)
    (isBody : Bool) : (occurrenceAt around parent isBody fs t).here.node = t := by
  induction fs generalizing around parent isBody with
  | nil => rfl
  | cons f fs ih => exact ih _ _ _

theorem fill_kind (h : c'.kind = c.kind) (fs : List Frame) :
    (fill fs c').kind = (fill fs c).kind := by
  cases fs with
  | nil => exact h
  | cons f fs => rfl

theorem fill_role (h : c'.role = c.role) (fs : List Frame) :
    (fill fs c').role = (fill fs c).role := by
  cases fs with
  | nil => exact h
  | cons f fs => rfl

/-! ## 2. Parts beside the hole -/

theorem visitAll_append : (Tree.visitAll scope kind (ts ++ us)).classes =
    (Tree.visitAll scope kind ts).classes ++ (Tree.visitAll scope kind us).classes := by
  induction ts with
  | nil => rfl
  | cons s ts ih =>
    rw [List.cons_append, Tree.visitAll, Tree.visitAll, classes_append, classes_append, ih,
      List.append_assoc]

theorem visitAll_cons : (Tree.visitAll scope kind (t :: us)).classes =
    (t.visit scope kind).classes ++ (Tree.visitAll scope kind us).classes := by
  rw [Tree.visitAll, classes_append]

theorem visitOutside_append (ht : t.kind ≠ .compoundStatement) :
    (Tree.visitOutside scope kind (ts ++ t :: us)).classes =
    (Tree.visitOutside scope kind ts).classes ++ ((t.visit scope kind).classes ++
      (Tree.visitOutside scope kind us).classes) := by
  induction ts with
  | nil =>
    rw [List.nil_append, Tree.visitOutside.eq_def scope kind (t :: us)]
    dsimp only
    rw [if_neg (by simpa using ht)]
    rfl
  | cons s ts ih =>
    rw [List.cons_append, Tree.visitOutside, Tree.visitOutside, classes_append, classes_append, ih,
      List.append_assoc]

theorem visitBody_append (hts : ∀ s ∈ ts, s.role ≠ some .body) (ht : t.role = some .body) :
    Tree.visitBody scope (ts ++ t :: us) = Tree.visitBelow scope t := by
  induction ts with
  | nil => rw [List.nil_append, Tree.visitBody, if_pos (beq_iff_eq.mpr ht)]
  | cons s ts ih =>
    obtain ⟨hs, hts⟩ := List.forall_mem_cons.mp hts
    rw [List.cons_append, Tree.visitBody, if_neg (by simpa using hs), ih hts]

/-- A part in another role than the one that is looked for. -/
theorem child?_other {r : Role} (hc : c'.role = c.role) (hr : c.role ≠ some r) :
    (f.node c').child? r = (f.node c).child? r := by
  simp [Frame.node, Tree.child?, Tree.children, List.find?_append, hc, hr]

/-- The body is found where it stands. -/
theorem holdsBody_iff : f.holdsBody t = true ↔
    (∀ s ∈ f.before, s.role ≠ some .body) ∧ t.role = some .body := by
  simp [Frame.holdsBody]

theorem child?_body (h : f.holdsBody t = true) : (f.node t).child? .body = some t := by
  obtain ⟨hbefore, ht⟩ := holdsBody_iff.mp h
  have hnone : f.before.find? (·.role == some .body) = none :=
    List.find?_eq_none.mpr fun s hs => by simpa using hbefore s hs
  simp [Frame.node, Tree.child?, Tree.children, List.find?_append, hnone, ht]

/-- What members declare is read one by one. -/
theorem methodsFrom_congr (hkind : u.kind = t.kind) (ht : t.kind ≠ .accessSpecifier)
    (h : t.declares = true → u.method? = t.method?) (a : Access) :
    Tree.methodsFrom a (ts ++ u :: us) = Tree.methodsFrom a (ts ++ t :: us) := by
  have hdeclares : u.declares = t.declares := by rw [Tree.declares, Tree.declares, hkind]
  have hspecifier : ¬ (t.kind == .accessSpecifier) = true := by simpa using ht
  induction ts generalizing a with
  | nil =>
    rw [List.nil_append, List.nil_append, Tree.methodsFrom, Tree.methodsFrom, hkind,
      if_neg hspecifier, if_neg hspecifier, hdeclares]
    split
    · rename_i hpublic
      rw [h (Bool.and_eq_true_iff.mp hpublic).2]
    · rfl
  | cons s ts ih =>
    rw [List.cons_append, List.cons_append, Tree.methodsFrom, Tree.methodsFrom, ih, ih]

/-! ## 3. The hole -/

/-- No node around the class is read otherwise: no method spells the class in its types, and
no access specifier holds it. -/
def Unread : List Frame → Tree → Tree → Prop
  | [], _, _ => True
  | f :: fs, c, c' =>
    ((fill (f :: fs) c).kind ≠ .accessSpecifier ∧
      (fill (f :: fs) c').method? = (fill (f :: fs) c).method?) ∧ Unread fs c c'

instance decidableUnread (c c' : Tree) : ∀ fs, Decidable (Unread fs c c')
  | [] => isTrue trivial
  | _ :: fs =>
    have := decidableUnread c c' fs
    inferInstanceAs (Decidable (_ ∧ _))

/-- The methods of a class that holds the changed one among its members are as before. -/
theorem methods_fill (hclass : IsClass c.kind) (hkind : c'.kind = c.kind)
    (h : Unread fs c c') (hfs : fs ≠ []) (a : Access) :
    (fill fs c').methods a = (fill fs c).methods a := by
  obtain ⟨f, fs, rfl⟩ := List.exists_cons_of_ne_nil hfs
  have hnamed : (fill fs c').isNamed = (fill fs c).isNamed := by
    rw [Tree.isNamed, Tree.isNamed, fill_kind hkind]
  rw [fill, fill, Frame.node, Frame.node, Tree.methods, Tree.methods, Tree.namedChildren,
    Tree.namedChildren, Tree.children, Tree.children, List.filter_append, List.filter_append,
    List.filter_cons, List.filter_cons, hnamed]
  split
  · cases fs with
    | nil =>
      refine methodsFrom_congr hkind ?_ (fun hdeclares => ?_) a
      · rcases hclass with hc | hc <;> simp [hc]
      · rcases hclass with hc | hc <;> simp [Tree.declares, hc] at hdeclares
    | cons g gs =>
      obtain ⟨hother, hmethod⟩ := h.2.1
      exact methodsFrom_congr (fill_kind hkind _) hother (fun _ => hmethod) a
  · rfl

/-- What is found in a tree, or below it if it is a body. -/
def found (scope : Scope) (parent : Kind) (isBody : Bool) (t : Tree) : List ClassDecl :=
  if isBody then (t.visitBelow scope).classes else (t.visit scope parent).classes

/-- The walk comes to every node around what is described, and goes on from it. -/
theorem passes_of_describe
    (h : (occurrenceAt around parent isBody (f :: fs) c).describe? = some d) :
    Passes ⟨parent, isBody, f.node (fill fs c)⟩
      ⟨f.kind, (⟨parent, isBody, f.node (fill fs c)⟩ : Standing).opensBody &&
        f.holdsBody (fill fs c), fill fs c⟩ = true := by
  have hreached := (describe?_some h).1
  have hprefix := prefix_path _ _ _ _ _ (occurrenceAt_mem fs c
    (around ++ [⟨parent, isBody, f.node (fill fs c)⟩]) f.kind
    ((⟨parent, isBody, f.node (fill fs c)⟩ : Standing).opensBody && f.holdsBody (fill fs c)))
  have hway := List.IsChain.prefix hreached hprefix
  exact (isChain_concat.mp hway).2

theorem holdsBody_congr (h : u.role = t.role) : f.holdsBody u = f.holdsBody t := by
  rw [Frame.holdsBody, Frame.holdsBody, h]

/-- The name of a class does not depend on what its body holds. -/
theorem className?_node (h : u.role = t.role) (hbody : f.holdsBody t = true) :
    (⟨parent, false, f.node u⟩ : Standing).className? =
      (⟨parent, false, f.node t⟩ : Standing).className? := by
  have hother : t.role ≠ some .name := by
    rw [(holdsBody_iff.mp hbody).2]
    decide
  rw [Standing.className?, Standing.className?]
  dsimp only
  rw [child?_other h hother, child?_body hbody, child?_body ((holdsBody_congr h).trans hbody)]
  rfl

theorem classDecl_node {name : String} {a : Access} (hbody : f.holdsBody t = true) :
    (f.node t).classDecl scope name a =
      { ClassDecl.describe name scope.namespaces scope.classes with methods := t.methods a } := by
  rw [Tree.classDecl, child?_body hbody]
  rfl

/-- What is found in the hole comes between the same in both trees. -/
def Surrounds (outer inner : Tree → List ClassDecl) (t u : Tree) : Prop :=
  ∃ before after, ∀ v, v = t ∨ v = u → outer v = before ++ (inner v ++ after)

/-- The body of a class comes behind the class itself. -/
theorem found_class {name : String} (hrole : u.role = t.role) (hclass : IsClass f.kind)
    (hname : (⟨parent, false, f.node t⟩ : Standing).className? = some name)
    (hbody : f.holdsBody t = true) (hmethods : ∀ a, u.methods a = t.methods a) :
    Surrounds (fun v => (Tree.visit (scopeOf around) parent (f.node v)).classes)
      (fun v => (v.visitBelow (scopeOf (around ++ [⟨parent, false, f.node t⟩]))).classes) t u := by
  have hspaces : (⟨parent, false, f.node t⟩ : Standing).namespaces = [] := by
    rcases hclass with h | h <;> simp [Standing.namespaces, Frame.node, Tree.kind, h]
  refine ⟨[(f.node t).classDecl (scopeOf around) name (initialAccess (f.node t))], [],
    fun v hv => ?_⟩
  have hsame : f.holdsBody v = true ∧
      (⟨parent, false, f.node v⟩ : Standing).className? = some name ∧
      ∀ a, v.methods a = t.methods a := by
    rcases hv with rfl | rfl
    · exact ⟨hbody, hname, fun _ => rfl⟩
    · exact ⟨(holdsBody_congr hrole).trans hbody, (className?_node hrole hbody).trans hname,
        hmethods⟩
  obtain ⟨hvbody, hvname, hvmethods⟩ := hsame
  obtain ⟨hfirst, hv⟩ := holdsBody_iff.mp hvbody
  have hvisit : Tree.visit (scopeOf around) parent (f.node v) = _ := visit_class hclass
  rw [← Frame.node, hvname] at hvisit
  replace hvisit := congrArg Tree.Findings.classes hvisit
  dsimp only at hvisit ⊢
  rw [classes_append, visitBody_append hfirst hv] at hvisit
  rw [hvisit, classDecl_node hvbody, classDecl_node hbody, hvmethods, scopeOf_concat, hspaces,
    hname, List.append_nil, List.append_nil]
  rfl

/-- A namespace is its body. -/
theorem found_namespace (hrole : u.role = t.role) (hspace : f.kind = .namespaceDefinition)
    (hbody : f.holdsBody t = true) :
    Surrounds (fun v => (Tree.visit (scopeOf around) parent (f.node v)).classes)
      (fun v => (v.visitBelow (scopeOf (around ++ [⟨parent, false, f.node t⟩]))).classes) t u := by
  have hname : (⟨parent, false, f.node t⟩ : Standing).className? = none := by
    simp [Standing.className?, Frame.node, Tree.kind, hspace]
  have hother : t.role ≠ some .name := by
    rw [(holdsBody_iff.mp hbody).2]
    decide
  refine ⟨[], [], fun v hv => ?_⟩
  have hvrole : v.role = t.role := by
    rcases hv with rfl | rfl
    · rfl
    · exact hrole
  have hspaces : (⟨parent, false, f.node v⟩ : Standing).namespaces =
      (⟨parent, false, f.node t⟩ : Standing).namespaces := by
    rw [Standing.namespaces, Standing.namespaces]
    dsimp only
    rw [child?_other hvrole hother]
    rfl
  obtain ⟨hfirst, hv⟩ := holdsBody_iff.mp ((holdsBody_congr hvrole).trans hbody)
  have hvisit : (Tree.visit (scopeOf around) parent (f.node v)).classes = _ :=
    congrArg Tree.Findings.classes (visit_namespace hspace)
  rw [← Frame.node, classes_append, hspaces, visitBody_append hfirst hv] at hvisit
  dsimp only
  rw [hvisit, scopeOf_concat, hname]
  simp

/-- What stands in another node comes among its other parts. -/
theorem found_plain (hkind : u.kind = t.kind) (hclass : ¬ IsClass f.kind)
    (hspace : f.kind ≠ .namespaceDefinition)
    (hpass : Passes ⟨parent, false, f.node t⟩ ⟨f.kind, false, t⟩ = true) :
    Surrounds (fun v => (Tree.visit (scopeOf around) parent (f.node v)).classes)
      (fun v => (v.visit (scopeOf around) f.kind).classes) t u := by
  have hinclude : f.kind ≠ .include := fun h => by
    rw [passes_include (s := ⟨parent, false, f.node t⟩) rfl h] at hpass
    cases hpass
  by_cases hdeclaration : IsDeclaration f.kind
  · rw [passes_declaration (s := ⟨parent, false, f.node t⟩) rfl hdeclaration, bne_iff_ne] at hpass
    refine ⟨(Tree.visitOutside (scopeOf around) f.kind f.before).classes,
      (Tree.visitOutside (scopeOf around) f.kind f.after).classes, fun v hv => ?_⟩
    have hkindv : v.kind ≠ .compoundStatement := by
      rcases hv with rfl | rfl
      · exact hpass
      · rw [hkind]
        exact hpass
    exact (congrArg Tree.Findings.classes (visit_declaration hdeclaration)).trans
      (visitOutside_append hkindv)
  · refine ⟨(Tree.visitAll (scopeOf around) f.kind f.before).classes,
      (Tree.visitAll (scopeOf around) f.kind f.after).classes, fun v _ => ?_⟩
    exact (congrArg Tree.Findings.classes
      (visit_other hspace hclass hinclude hdeclaration)).trans
        (visitAll_append.trans (congrArg _ visitAll_cons))

/-- **What is found in a node** is what is found in its hole, between what is found in it
besides. -/
theorem found_node (around : List Standing) (hrole : u.role = t.role) (hkind : u.kind = t.kind)
    (hpass : Passes ⟨parent, isBody, f.node t⟩
      ⟨f.kind, (⟨parent, isBody, f.node t⟩ : Standing).opensBody && f.holdsBody t, t⟩ = true)
    (hmethods : ((⟨parent, isBody, f.node t⟩ : Standing).opensBody && f.holdsBody t) = true →
      ∀ a, u.methods a = t.methods a) :
    Surrounds (fun v => found (scopeOf around) parent isBody (f.node v))
      (found (scopeOf (around ++ [⟨parent, isBody, f.node t⟩])) f.kind
        ((⟨parent, isBody, f.node t⟩ : Standing).opensBody && f.holdsBody t)) t u := by
  cases isBody with
  | true =>
    -- below a body everything is looked into
    refine ⟨(Tree.visitAll (scopeOf around) f.kind f.before).classes,
      (Tree.visitAll (scopeOf around) f.kind f.after).classes, fun v _ => ?_⟩
    rw [scopeOf_plain rfl rfl]
    exact visitAll_append.trans (congrArg _ visitAll_cons)
  | false =>
    by_cases hmembers : IsClass f.kind ∨ f.kind = .namespaceDefinition
    · have hopens : (⟨parent, false, f.node t⟩ : Standing).opensBody = true := by
        rcases hmembers with (h | h) | h <;> simp [Standing.opensBody, Frame.node, Tree.kind, h]
      rw [hopens, Bool.true_and] at hpass hmethods ⊢
      rcases hmembers with hclass | hspace
      · rw [passes_class (s := ⟨parent, false, f.node t⟩) rfl hclass, Bool.and_eq_true] at hpass
        obtain ⟨hsome, hbody⟩ := hpass
        obtain ⟨name, hname⟩ := Option.isSome_iff_exists.mp hsome
        dsimp only at hbody
        rw [hbody]
        exact found_class hrole hclass hname hbody (hmethods hbody)
      · rw [passes_namespace (s := ⟨parent, false, f.node t⟩) rfl hspace] at hpass
        dsimp only at hpass
        rw [hpass]
        exact found_namespace hrole hspace hpass
    · obtain ⟨hclass, hspace⟩ := not_or.mp hmembers
      obtain ⟨hcloses, hspaces, hname⟩ :=
        plain_of_kind (s := ⟨parent, false, f.node t⟩) hspace hclass
      rw [hcloses, Bool.false_and] at hpass ⊢
      rw [scopeOf_plain hspaces hname]
      exact found_plain hkind hclass hspace hpass

/-- **When a class is changed in its place, so is its description, and nothing else that is
found in the tree**, if nothing around it is read otherwise. -/
theorem found_fill (c c' : Tree) (hclass : IsClass c.kind) (hkind : c'.kind = c.kind)
    (hrole : c'.role = c.role)
    (hbase : ∀ around parent,
      (⟨around, ⟨parent, false, c⟩⟩ : Occurrence).describe? = some d →
      ∃ nested, (c.visit (scopeOf around) parent).classes = d :: nested ∧
        (c'.visit (scopeOf around) parent).classes = d' :: nested)
    (fs : List Frame) (around : List Standing) (parent : Kind) (isBody : Bool)
    (hd : (occurrenceAt around parent isBody fs c).describe? = some d)
    (hunread : Unread fs c c') :
    ∃ before after, found (scopeOf around) parent isBody (fill fs c) = before ++ d :: after ∧
      found (scopeOf around) parent isBody (fill fs c') = before ++ d' :: after := by
  induction fs generalizing around parent isBody with
  | nil =>
    cases isBody with
    | true =>
      rw [describe?_eq_none rfl] at hd
      cases hd
    | false =>
      obtain ⟨nested, hold, hnew⟩ := hbase around parent hd
      exact ⟨[], nested, hold, hnew⟩
  | cons f fs ih =>
    obtain ⟨before, after, hold, hnew⟩ := ih _ _ _ hd hunread.2
    obtain ⟨front, back, hnode⟩ := found_node around (fill_role hrole fs)
      (fill_kind hkind fs) (passes_of_describe hd) fun hbody a => by
        refine methods_fill hclass hkind hunread.2 ?_ a
        rintro rfl
        -- what is described is no body
        rw [occurrenceAt, hbody, occurrenceAt, describe?_eq_none rfl] at hd
        cases hd
    refine ⟨front ++ before, after ++ back, ?_, ?_⟩
    · refine (hnode _ (.inl rfl)).trans ?_
      rw [hold]
      simp
    · refine (hnode _ (.inr rfl)).trans ?_
      rw [hnew]
      simp

end Scaffold.Cpp
