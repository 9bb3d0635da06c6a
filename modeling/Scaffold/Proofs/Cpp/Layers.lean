import Scaffold.Cpp.Describe
import Scaffold.Proofs.Cpp.Parts

/-!
# The layers of a declarator

Peeling takes one pointer, reference or array after the other off a declarator.

* `Tree.added?` -- what such a layer adds to a type; `Tree.next?`: the declarator inside it;
* `peel_eq` -- **peeling takes one layer off and goes on inside**; `layer_induction`: what
  passes from the inside of a layer to the layer holds of every declarator;
* `Tree.layers` -- all layers, outermost first; `suffix_layers`: what they add is what
  peeling gives, and `inner_of_layers`: what is inside the last is what is declared.
-/
namespace Scaffold.Cpp

namespace Tree

/-! ## 1. One layer -/

/-- Which tree below a pointer, a reference or an array is the declarator inside it. -/
def leads : Kind → Tree → Bool
  | .pointerDeclarator | .abstractPointerDeclarator | .arrayDeclarator
  | .abstractArrayDeclarator => fun t => t.role == some .declarator
  | .referenceDeclarator | .abstractReferenceDeclarator => isNamed
  | _ => fun _ => false

/-- The declarator inside a pointer, a reference or an array. -/
def next? (t : Tree) : Option Tree := t.children.find? (leads t.kind)

/-- What a pointer, a reference or an array adds to a type; none for other trees. -/
def added? : Tree → Option (List Char)
  | .leaf .. => none
  | .node kind r cs =>
    match kind with
    | .pointerDeclarator | .abstractPointerDeclarator => some ('*' :: pointerQualifiers cs)
    | .referenceDeclarator | .abstractReferenceDeclarator =>
      some ((cs.head?.map text).getD ['&'])
    | .arrayDeclarator | .abstractArrayDeclarator =>
      some ('[' :: (((Tree.node kind r cs).child? .size).map text).getD [] ++ [']'])
    | _ => none

variable {t u : Tree} {cs : List Tree}

/-- The qualifiers of a pointer are those among the trees below it. -/
theorem pointerQualifiers_eq (ts : List Tree) :
    pointerQualifiers ts = (ts.filter (·.kind == .typeQualifier)).flatMap (' ' :: ·.text) := by
  induction ts with
  | nil => rfl
  | cons t ts ih =>
    have hfirst : pointerQualifiers (t :: ts) =
        (if t.kind == .typeQualifier then ' ' :: t.text else []) ++ pointerQualifiers ts := rfl
    rw [hfirst, List.filter_cons, ih]
    split
    · rw [List.flatMap_cons]
    · rfl

theorem mem_of_next? (h : t.next? = some u) : u ∈ t.children := List.mem_of_find?_eq_some h

theorem peelRole_eq (r : Role) (cs : List Tree) :
    peelRole r cs = ((cs.find? (·.role == some r)).map peel).getD ⟨none, []⟩ := by
  induction cs with
  | nil => rfl
  | cons t cs ih =>
    rw [peelRole, List.find?_cons]
    by_cases h : (t.role == some r) = true
    · rw [if_pos h, h]
      rfl
    · rw [if_neg h, ih, eq_false_of_ne_true h]

theorem peelNamed_eq (cs : List Tree) :
    peelNamed cs = ((cs.find? isNamed).map peel).getD ⟨none, []⟩ := by
  induction cs with
  | nil => rfl
  | cons t cs ih =>
    rw [peelNamed, List.find?_cons]
    by_cases h : t.isNamed = true
    · rw [if_pos h, h]
      rfl
    · rw [if_neg h, ih, eq_false_of_ne_true h]

/-- **Peeling takes one layer off and goes on inside.** -/
theorem peel_eq (t : Tree) : t.peel =
    match t.added? with
    | none => ⟨some t, []⟩
    | some added => ⟨t.next?.bind (·.peel.inner),
        added ++ (t.next?.map (·.peel.suffix)).getD []⟩ := by
  have hinside (added : List Char) (inside : Option Tree) :
      (⟨((inside.map peel).getD ⟨none, []⟩).inner,
        added ++ ((inside.map peel).getD ⟨none, []⟩).suffix⟩ : Peeled) =
      ⟨inside.bind (·.peel.inner), added ++ (inside.map (·.peel.suffix)).getD []⟩ := by
    cases inside <;> rfl
  cases t with
  | leaf kind r lead text => rfl
  | node kind r cs =>
    rw [peel.eq_def]
    dsimp only
    split
    case h_7 =>
      have hnone : (Tree.node kind r cs).added? = none := by
        rw [added?.eq_def]
        dsimp only
        split <;> first | contradiction | rfl
      rw [hnone]
    all_goals simp only [peelRole_eq, peelNamed_eq]
    case h_5 | h_6 =>
      exact Eq.trans (by simp) (hinside _ (cs.find? (·.role == some .declarator)))
    all_goals exact hinside _ _

/-- A tree without layers is what it declares. -/
theorem peel_of_none (h : t.added? = none) : t.peel = ⟨some t, []⟩ := by
  rw [peel_eq, h]

/-- A layer is taken off, and what it adds stands in front. -/
theorem peel_of_added {added : List Char} (h : t.added? = some added) :
    t.peel = ⟨t.next?.bind (·.peel.inner), added ++ (t.next?.map (·.peel.suffix)).getD []⟩ := by
  rw [peel_eq, h]

/-- **What passes from the inside of a layer to the layer** holds of every declarator. -/
theorem layer_induction {P : Tree → Prop} (h : ∀ t, (∀ u, t.next? = some u → P u) → P t) :
    ∀ t, P t := by
  have hsize : ∀ n, ∀ t : Tree, sizeOf t < n → P t := by
    intro n
    induction n with
    | zero => exact fun _ hn => absurd hn (Nat.not_lt_zero _)
    | succ n ih =>
      refine fun t ht => h t fun u hu => ih u ?_
      have hmem := mem_of_next? hu
      cases t with
      | leaf kind r lead text => cases hmem
      | node kind r cs =>
        have := List.sizeOf_lt_of_mem hmem
        simp only [children, Tree.node.sizeOf_spec] at this ht
        omega
  exact fun t => hsize _ t (Nat.lt_succ_self _)

/-- What a declarator declares is a part of it. -/
theorem part_of_peel : ∀ t : Tree, t.peel.inner = some u → t.Part u := by
  intro t
  induction t using layer_induction with
  | _ t ih =>
    intro h
    rw [peel_eq] at h
    split at h
    · rw [← Option.some.inj h]
      exact .whole
    · obtain ⟨v, hnext, hv⟩ := Option.bind_eq_some_iff.mp h
      exact .trans (.inside .whole (mem_of_next? hnext)) (ih v hnext hv)

/-! ## 2. All layers -/

mutual

/-- The pointers, references and arrays of a declarator, outermost first. -/
def layers : Tree → List Tree
  | .leaf .. => []
  | .node kind r cs =>
    if (Tree.node kind r cs).added?.isSome then .node kind r cs :: layersFirst (leads kind) cs
    else []

/-- The same for the first tree of the list with the property. -/
def layersFirst (p : Tree → Bool) : List Tree → List Tree
  | [] => []
  | t :: ts => if p t then layers t else layersFirst p ts

end

theorem layersFirst_eq (p : Tree → Bool) (cs : List Tree) :
    layersFirst p cs = ((cs.find? p).map layers).getD [] := by
  induction cs with
  | nil => rfl
  | cons t cs ih =>
    rw [layersFirst, List.find?_cons]
    by_cases h : p t = true
    · rw [if_pos h, h]
      rfl
    · rw [if_neg h, ih, eq_false_of_ne_true h]

theorem layers_eq (t : Tree) :
    t.layers = if t.added?.isSome then t :: (t.next?.map layers).getD [] else [] := by
  cases t with
  | leaf kind r lead text => rfl
  | node kind r cs => rw [layers, layersFirst_eq]; rfl

/-- **What peeling adds to a type is what the layers add**, from the outside in. -/
theorem suffix_layers (t : Tree) :
    t.peel.suffix = t.layers.flatMap fun l => l.added?.getD [] := by
  induction t using layer_induction with
  | _ t ih =>
    rw [peel_eq, layers_eq]
    cases hadded : t.added? with
    | none => rfl
    | some added =>
      rw [Option.isSome_some, if_pos rfl, List.flatMap_cons, hadded]
      cases hnext : t.next? with
      | none => rfl
      | some u => exact congrArg (added ++ ·) (ih u hnext)

theorem mem_layers {l : Tree} :
    l ∈ t.layers ↔ t.added?.isSome = true ∧ (l = t ∨ ∃ u, t.next? = some u ∧ l ∈ u.layers) := by
  rw [layers_eq]
  split
  · rename_i hadded
    rw [List.mem_cons, and_iff_right hadded]
    cases t.next? with
    | none => simp
    | some u => simp
  · rename_i hadded
    exact iff_of_false (fun h => nomatch h) fun h => hadded h.1

/-- Every layer adds something. -/
theorem added_of_layers {l : Tree} : ∀ t : Tree, l ∈ t.layers → l.added?.isSome = true := by
  intro t
  induction t using layer_induction with
  | _ t ih =>
    intro h
    obtain ⟨hadded, rfl | ⟨u, hnext, hu⟩⟩ := mem_layers.mp h
    · exact hadded
    · exact ih u hnext hu

/-- The layers of a declarator are parts of it. -/
theorem part_of_layers {l : Tree} : ∀ t : Tree, l ∈ t.layers → t.Part l := by
  intro t
  induction t using layer_induction with
  | _ t ih =>
    intro h
    obtain ⟨-, rfl | ⟨u, hnext, hu⟩⟩ := mem_layers.mp h
    · exact .whole
    · exact .trans (.inside .whole (mem_of_next? hnext)) (ih u hnext hu)

/-- Where a layer has nothing inside but what is no layer, this is what is declared. -/
theorem inner_of_layers {l : Tree} (hu : l.next? = some u) (hnone : u.added? = none) :
    ∀ t : Tree, l ∈ t.layers → t.peel.inner = some u := by
  intro t
  induction t using layer_induction with
  | _ t ih =>
    intro h
    obtain ⟨hadded, hl⟩ := mem_layers.mp h
    obtain ⟨added, hadded⟩ := Option.isSome_iff_exists.mp hadded
    rw [peel_eq, hadded]
    dsimp only
    rcases hl with rfl | ⟨v, hnext, hv⟩
    · rw [hu, Option.bind_some, peel_of_none hnone]
    · rw [hnext, Option.bind_some, ih v hnext hv]

end Tree

end Scaffold.Cpp
