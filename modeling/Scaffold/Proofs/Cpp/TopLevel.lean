import Scaffold.Proofs.Cpp.Bodies
import Scaffold.Proofs.Cpp.Occurrences

/-!
# Where a class without outer classes stands

A class that is described without classes around it is taken for one at namespace scope. The
walk keeps out of the blocks of functions and tells which classes and structs it is in, but
not which unions; and it goes into the bodies of lambdas, and into the blocks of a function
whose body has handlers.

* `Holds` -- how a node stands in the node around it;
* `EntersBody` -- a way goes into the body of a class, struct, union, function or lambda;
* `EntersUntold` -- it goes into one that the walk neither keeps out of nor tells;
* `top_level_iff` -- **a class without outer classes is at namespace scope exactly if no
  such body is around it**.
-/
namespace Scaffold.Cpp

/-! ## 1. The way to a node -/

/-- A node and a part of it. -/
structure Holds (outer inner : Standing) : Prop where
  part : inner.node ∈ outer.node.children
  body : inner.isBody = true → outer.opensBody = true ∧ inner.node.role = some .body

mutual

/-- Each node on the way to a node is a part of the one before. -/
theorem holds_from (around : List Standing) (parent : Kind) (isBody : Bool) : ∀ t : Tree,
    List.IsChain Holds (around ++ [⟨parent, isBody, t⟩]) →
    ∀ o ∈ t.occurrencesFrom around parent isBody, List.IsChain Holds o.path
  | .leaf .., h, o, ho => by
      rw [Tree.occurrencesFrom, List.mem_singleton] at ho
      rwa [ho]
  | .node k r cs, h, o, ho => by
      rw [Tree.occurrencesFrom] at ho
      rcases List.mem_cons.mp ho with rfl | ho
      · exact h
      · exact holds_below around ⟨parent, isBody, .node k r cs⟩ k _ h id cs
          (List.Subset.refl cs) o ho

theorem holds_below (around : List Standing) (outer : Standing) (parent : Kind)
    (expected : Bool) (h : List.IsChain Holds (around ++ [outer]))
    (hexpected : expected = true → outer.opensBody = true) : ∀ ts : List Tree,
    ts ⊆ outer.node.children →
    ∀ o ∈ Tree.occurrencesBelow (around ++ [outer]) parent expected ts,
      List.IsChain Holds o.path
  | [], _, o, ho => by
      rw [Tree.occurrencesBelow] at ho
      cases ho
  | t :: ts, hsub, o, ho => by
      obtain ⟨ht, hts⟩ := List.cons_subset.mp hsub
      rw [Tree.occurrencesBelow] at ho
      rcases List.mem_append.mp ho with ho | ho
      · refine holds_from _ parent _ t (isChain_concat.mpr ⟨h, ht, fun hbody => ?_⟩) o ho
        obtain ⟨hopens, hrole⟩ := Bool.and_eq_true_iff.mp hbody
        exact ⟨hexpected hopens, eq_of_beq hrole⟩
      · exact holds_below around outer parent _ h
          (fun hmore => hexpected (Bool.and_eq_true_iff.mp hmore).1) ts hts o ho

end

/-- Below the node the bodies are as they should be, and if it is the body of a namespace or
a class, it is a list of declarations. -/
structure Placed (s : Standing) : Prop where
  housed : s.node.Housed
  body : s.isBody = true →
    s.node.kind = .declarationList ∨ s.node.kind = .fieldDeclarationList

/-- The parts of a node are placed as it is. -/
theorem Holds.placed {outer inner : Standing} (h : Holds outer inner) (hp : Placed outer) :
    Placed inner := by
  obtain ⟨hhoused, hadmits⟩ := hp.housed.parts h.part
  refine ⟨hhoused, fun hbody => ?_⟩
  obtain ⟨hopens, hrole⟩ := h.body hbody
  have hadmits := hadmits hrole
  simp only [Standing.opensBody, Bool.and_eq_true, Bool.or_eq_true, beq_iff_eq] at hopens
  obtain ⟨-, (hkind | hkind) | hkind⟩ := hopens <;> rw [hkind] at hadmits
  · exact .inl hadmits
  · exact .inr hadmits
  · exact .inr hadmits

/-- **Every node on the way to a node of a text is placed.** -/
theorem path_placed {text : List Char} {o : Occurrence} (ho : o ∈ (parse text).occurrences) :
    List.IsChain Holds o.path ∧ ∀ s ∈ o.path, Placed s := by
  have hchain := holds_from [] .translationUnit false (parse text) (List.isChain_singleton _) o ho
  obtain ⟨way, hway⟩ := prefix_path [] .translationUnit false (parse text) o ho
  refine ⟨hchain, hchain.induction Placed o.path (fun _ _ h => h.placed) fun hne => ?_⟩
  simp only [← hway]
  exact ⟨parse_housed text, fun hbody => absurd hbody Bool.false_ne_true⟩

/-! ## 2. Bodies on the way -/

/-- The part is the body of a class, a struct, a union, a function or a lambda. -/
def EntersBody (outer inner : Standing) : Bool :=
  inner.node.role == some .body &&
    (outer.node.kind == .classSpecifier || outer.node.kind == .structSpecifier ||
      outer.node.kind == .unionSpecifier || outer.node.kind == .functionDefinition ||
      outer.node.kind == .lambda)

/-- The part is the body of a union or a lambda, or a body with handlers of a function. -/
def EntersUntold (outer inner : Standing) : Bool :=
  inner.node.role == some .body &&
    (outer.node.kind == .unionSpecifier || outer.node.kind == .lambda ||
      outer.node.kind == .functionDefinition && inner.node.kind == .tryStatement)

/-- The walk goes into no other bodies but those of the classes that it tells. -/
theorem entersBody_eq {outer inner : Standing} (hp : Placed outer) (hholds : Holds outer inner)
    (hpass : Passes outer inner = true) (hnone : outer.className? = none) :
    EntersBody outer inner = EntersUntold outer inner := by
  cases hrole : inner.node.role == some .body with
  | false => rw [EntersBody, EntersUntold, hrole, Bool.false_and, Bool.false_and]
  | true =>
    cases hself : outer.isBody with
    | true =>
      rcases hp.body hself with hkind | hkind <;> rw [EntersBody, EntersUntold, hkind] <;> rfl
    | false =>
      by_cases hclass : IsClass outer.node.kind
      · rw [passes_class hself hclass, hnone] at hpass
        cases hpass
      · obtain ⟨hc, hs⟩ := not_or.mp hclass
        by_cases hfunction : outer.node.kind = .functionDefinition
        · -- the body of a function is a block, which the walk keeps out of, or has handlers
          have hbody : inner.node.kind = .compoundStatement ∨ inner.node.kind = .tryStatement := by
            have hadmits := (hp.housed.parts hholds.part).2 (eq_of_beq hrole)
            rwa [hfunction] at hadmits
          rw [passes_declaration hself (.inr (.inl hfunction)), bne_iff_ne] at hpass
          rw [EntersBody, EntersUntold, hrole, hfunction, hbody.resolve_left hpass]
          rfl
        · rw [EntersBody, EntersUntold, beq_eq_false_iff_ne.mpr hc, beq_eq_false_iff_ne.mpr hs,
            beq_eq_false_iff_ne.mpr hfunction]
          simp

/-- **A class without outer classes is at namespace scope** -- in no body of a class, struct,
union, function or lambda -- exactly if the body of no union and no lambda, and no body with
handlers of a function, is around it. -/
theorem top_level_iff {text : List Char} {o : Occurrence} {c : ClassDecl}
    (ho : o ∈ (parse text).occurrences) (hc : o.describe? = some c) (htop : c.outerClasses = []) :
    List.IsChain (fun p q => EntersBody p q = false) o.path ↔
      List.IsChain (fun p q => EntersUntold p q = false) o.path := by
  obtain ⟨hholds, hplaced⟩ := path_placed ho
  obtain ⟨hreached, -, houter⟩ := describe?_some hc
  rw [htop, eq_comm, List.filterMap_eq_nil_iff] at houter
  have hsame : ∀ ⦃p q l₁ l₂⦄, o.path = l₁ ++ p :: q :: l₂ → EntersBody p q = EntersUntold p q := by
    intro p q l₁ l₂ hsplit
    have hp : p ∈ o.path := by simp [hsplit]
    -- a node with another behind it on the way is one around the class
    have haround : p ∈ o.around := by
      have hlast : o.around = (l₁ ++ p :: q :: l₂).dropLast := by
        rw [← hsplit, Occurrence.path, List.dropLast_concat]
      rw [hlast, List.dropLast_append_cons]
      simp
    exact entersBody_eq (hplaced p hp)
      (List.isChain_iff_forall_rel_of_append_cons_cons.mp hholds hsplit)
      (List.isChain_iff_forall_rel_of_append_cons_cons.mp hreached hsplit) (houter p haround)
  rw [List.isChain_iff_forall_rel_of_append_cons_cons,
    List.isChain_iff_forall_rel_of_append_cons_cons]
  constructor
  · intro h p q l₁ l₂ hsplit
    rw [← hsame hsplit]
    exact h hsplit
  · intro h p q l₁ l₂ hsplit
    rw [hsame hsplit]
    exact h hsplit

/-- A header with a class in a namespace. -/
def demoText : String := "namespace demo \x7b class Foo \x7b \x7d; \x7d\n"

/-- A class in a namespace is at namespace scope. -/
theorem demo_class_top_level : ∃ o ∈ (parse demoText.toList).occurrences,
    o.describe? = some (ClassDecl.describe "Foo" ["demo"] []) ∧
      List.IsChain (fun p q => EntersBody p q = false) o.path := by
  obtain ⟨o, ho, hc, huntold⟩ : ∃ o ∈ (parse demoText.toList).occurrences,
      o.describe? = some (ClassDecl.describe "Foo" ["demo"] []) ∧
        List.IsChain (fun p q => EntersUntold p q = false) o.path := by decide +kernel
  exact ⟨o, ho, hc, (top_level_iff ho hc rfl).mpr huntold⟩

/-- A text without errors has a class without outer classes that a body is around. -/
def Misplaces (text : String) : Prop :=
  (parse text.toList).hasError = false ∧ ∃ o ∈ (parse text.toList).occurrences,
    o.describe?.map ClassDecl.outerClasses = some [] ∧
      ¬ List.IsChain (fun p q => EntersBody p q = false) o.path

instance (text : String) : Decidable (Misplaces text) := inferInstanceAs (Decidable (_ ∧ _))

/-- A class in a function whose body has handlers. -/
def handlerText : String :=
  "void run() try \x7b struct Local \x7b int f(); \x7d; \x7d catch (...) \x7b \x7d\n"

/-- A class in a union. -/
def unionText : String := "union Value \x7b struct Pair \x7b int f(); \x7d pair; int whole; \x7d;\n"

/-- A class in a lambda. -/
def lambdaText : String := "auto make = [] \x7b struct Local \x7b int f(); \x7d; \x7d;\n"

/-- **A class without outer classes need not be at namespace scope.** -/
theorem inner_class_top_level :
    Misplaces handlerText ∧ Misplaces unionText ∧ Misplaces lambdaText := by
  decide +kernel

end Scaffold.Cpp
