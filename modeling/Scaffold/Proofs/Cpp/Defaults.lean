import Mathlib.Data.List.DropRight
import Scaffold.Proofs.Cpp.Edits

/-!
# Default values of parameters

A default value belongs to no type, so a method should be described in the same way with it
and without it.

* `Tree.beforeDefault`, `Tree.defaultParts` -- what stands in front of the default value of a
  parameter, and the default value with its equals sign; `children_eq`: this is all of it;
* `Tree.withoutDefault` -- a member without the default value of one of its parameters;
  `cut_withoutDefaultAt`: nothing but the default value is cut out of the text;
* `described_declaration_iff` -- a parameter is described in the same way without its default
  value exactly if it declares no more than a name;
* `default_kept_iff` -- **so a method is described in the same way without the default value of
  a parameter exactly if this declares no more than a name**; `callback_default_kept`: that of a
  pointer to a function stays in the type of the parameter.
-/
namespace Scaffold.Cpp

open Grammar (built DefaultValue)

namespace Tree

/-! ## 1. Parts of a parameter -/

/-- The parameter has a default value. -/
def hasDefault (p : Tree) : Bool := p.kind == .optionalParameter && (p.child? .value).isSome

/-- An equals sign. -/
def isEquals (t : Tree) : Bool := t.kind == .token && t.text == ['=']

/-- A comment between the parts of a node. -/
def isAside (t : Tree) : Bool := t.kind == .comment && t.role == none

/-- What stands in front of the default value of a parameter. -/
def beforeDefault (p : Tree) : List Tree := (p.children.rdropWhile (!·.isEquals)).dropLast

/-- The default value of a parameter with its equals sign. -/
def defaultParts (p : Tree) : List Tree := p.children.drop p.beforeDefault.length

/-- A parameter without its default value. Comments in front of this no longer stand in it. -/
def declaration (p : Tree) : Tree :=
  .node .parameterDeclaration p.role (p.beforeDefault.rdropWhile isAside)

/-- The comments in front of the default value. -/
def asides (p : Tree) : List Tree := p.beforeDefault.rtakeWhile isAside

variable {t p u : Tree} {r : Role} {k : Kind} {ts : List Tree} {i : Nat}

/-- What is in front of an equals sign and a value. -/
theorem beforeDefault_eq (r : Option Role) (front : List Tree) {value : List Tree}
    (h : DefaultValue value) : (Tree.node k r (front ++ value)).beforeDefault = front := by
  obtain ⟨lead, between, value, rfl, hbetween, hkind, -⟩ := h
  have hno : ∀ c ∈ (between ++ [value]).reverse, (!c.isEquals) = true := by
    intro c hc
    rcases List.mem_append.mp (List.mem_reverse.mp hc) with hc | hc
    · obtain ⟨lead, text, rfl⟩ := hbetween c hc
      rfl
    · rw [List.mem_singleton.mp hc, isEquals, hkind]
      rfl
  have hstop : (Tree.leaf .token none lead ['='] :: front.reverse).dropWhile (!·.isEquals) =
      .leaf .token none lead ['='] :: front.reverse := rfl
  rw [beforeDefault, children, List.append_cons, List.rdropWhile, List.reverse_append,
    List.dropWhile_append_of_pos hno, List.reverse_concat, hstop, List.reverse_cons,
    List.reverse_reverse, List.dropLast_concat]

/-- A parameter with a default value is no leaf. -/
theorem children_ne_nil (hdefault : p.hasDefault = true) : p.children ≠ [] := by
  intro hnil
  have hvalue := (Bool.and_eq_true_iff.mp hdefault).2
  rw [child?, hnil] at hvalue
  cases hvalue

section HasDefault

variable (h : built.Holds p) (hdefault : p.hasDefault = true)

include h hdefault

/-- **A parameter with a default value** is what stands in front of it and the value, and it has
a type. -/
theorem children_eq : p.children = p.beforeDefault ++ p.defaultParts ∧
    DefaultValue p.defaultParts ∧ (p.child? .type).isSome = true := by
  obtain ⟨hkind, hsome⟩ := Bool.and_eq_true_iff.mp hdefault
  have hroot := (Law.holds_iff.mp h).1
  cases p with
  | leaf k r lead text => exact Bool.noConfusion hsome
  | node k r cs =>
    obtain rfl : k = .optionalParameter := eq_of_beq hkind
    obtain ⟨⟨front, value, rfl, hvalue⟩, type, htype, hrole⟩ := hroot
    have hparts : (Tree.node .optionalParameter r (front ++ value)).defaultParts = value := by
      rw [defaultParts, beforeDefault_eq r front hvalue]
      exact List.drop_left
    rw [beforeDefault_eq r front hvalue, hparts]
    exact ⟨rfl, hvalue, List.find?_isSome.mpr ⟨type, htype, by simp [hrole]⟩⟩

/-- **What is left out of a parameter**: the comments in front of the default value and the
value. -/
theorem children_split :
    p.children = p.declaration.children ++ (p.asides ++ p.defaultParts) := by
  rw [(children_eq h hdefault).1, declaration, children, asides, ← List.append_assoc,
    List.rdropWhile_append_rtakeWhile]

/-- It plays no role in the description of the parameter. -/
theorem left_out :
    ∀ u ∈ p.asides ++ p.defaultParts,
      (u.role = none ∨ u.role = some .value) ∧ u.kind ≠ .typeQualifier := by
  intro u hu
  rcases List.mem_append.mp hu with hu | hu
  · have haside : u.isAside = true := List.mem_rtakeWhile_imp hu
    obtain ⟨hkind, hrole⟩ := Bool.and_eq_true_iff.mp haside
    rw [eq_of_beq hkind]
    exact ⟨.inl (eq_of_beq hrole), by decide⟩
  · obtain ⟨lead, between, value, heq, hbetween, hkind, hrole⟩ := (children_eq h hdefault).2.1
    rw [heq] at hu
    rcases List.mem_cons.mp hu with rfl | hu
    · exact ⟨.inl rfl, Kind.noConfusion⟩
    · rcases List.mem_append.mp hu with hu | hu
      · obtain ⟨lead, text, rfl⟩ := hbetween u hu
        exact ⟨.inl rfl, Kind.noConfusion⟩
      · rw [List.mem_singleton.mp hu, hkind]
        exact ⟨.inr hrole, by decide⟩

/-! ## 2. Descriptions of a parameter -/

theorem child?_declaration (hr : r ≠ .value) : p.declaration.child? r = p.child? r := by
  rw [child?, child?, children_split h hdefault, List.find?_append]
  have hnone : (p.asides ++ p.defaultParts).find? (·.role == some r) = none := by
    refine List.find?_eq_none.mpr fun u hu hrole => ?_
    rcases (left_out h hdefault u hu).1 with hnone | hvalue
    · rw [hnone] at hrole
      cases hrole
    · rw [hvalue] at hrole
      exact hr (Option.some.inj (eq_of_beq hrole)).symm
  rw [hnone, Option.or_none]

theorem qualifiers_declaration :
    p.declaration.namedChildren.filter (·.kind == .typeQualifier) =
      p.namedChildren.filter (·.kind == .typeQualifier) := by
  have hnone : ((p.asides ++ p.defaultParts).filter isNamed).filter (·.kind == .typeQualifier) =
      [] := by
    refine List.filter_eq_nil_iff.mpr fun u hu hkind => ?_
    exact (left_out h hdefault u (List.mem_filter.mp hu).1).2 (eq_of_beq hkind)
  rw [namedChildren, namedChildren, children_split h hdefault, List.filter_append,
    List.filter_append, hnone, List.append_nil]

/-- What is left out of the text of a parameter is seen. -/
theorem visible_declaration :
    Text.visible p.text ≠ Text.visible p.declaration.text := by
  obtain ⟨-, ⟨lead, between, value, hparts, -⟩, htype⟩ := children_eq h hdefault
  obtain ⟨type, htype⟩ := Option.isSome_iff_exists.mp htype
  rw [← child?_declaration h hdefault (by decide)] at htype
  have hne : p.declaration.children ≠ [] := List.ne_nil_of_mem (List.mem_of_find?_eq_some htype)
  rw [text_children (children_ne_nil hdefault), children_split h hdefault, texts_append hne,
    Text.visible_append]
  intro heq
  have hnil := List.append_right_eq_self.mp heq
  -- the equals sign is seen
  have hequals : '=' ∈ Text.visible (spellings (p.asides ++ p.defaultParts)) := by
    refine List.mem_filter.mpr ⟨?_, by decide⟩
    refine text_subset_spellings (t := .leaf .token none lead ['=']) ?_ List.mem_cons_self
    rw [hparts]
    exact List.mem_append_right _ List.mem_cons_self
  rw [hnil] at hequals
  cases hequals

/-- **A parameter is described in the same way without its default value** exactly if it
declares no more than a name. -/
theorem described_declaration_iff :
    p.declaration.described? = p.described? ↔ p.speltWhole = false := by
  have hdeclared : p.declaration.declared? = p.declared? := by
    rw [declared?, child?_declaration h hdefault (by decide)]
    rfl
  have hsuffix : p.declaration.suffix = p.suffix := by
    rw [suffix, child?_declaration h hdefault (by decide)]
    rfl
  have hspelled (type : Tree) :
      spellType p.declaration type p.suffix = spellType p type p.suffix := by
    unfold spellType
    rw [qualifiers_declaration h hdefault]
  have hwhole : p.declaration.speltWhole = p.speltWhole := by rw [speltWhole, hdeclared]; rfl
  have hp : p.described? = p.parameter? := by
    rw [described?, eq_of_beq (Bool.and_eq_true_iff.mp hdefault).1]
  obtain ⟨type, htype⟩ := Option.isSome_iff_exists.mp (children_eq h hdefault).2.2
  rw [hp, show p.declaration.described? = p.declaration.parameter? from rfl, parameter?_eq,
    parameter?_eq, child?_declaration h hdefault (by decide), hwhole, hdeclared, hsuffix, htype,
    Option.map_some, Option.map_some, hspelled]
  cases p.speltWhole with
  | false => exact iff_of_true rfl rfl
  | true =>
    refine iff_of_false (fun heq => visible_declaration h hdefault ?_) Bool.noConfusion
    have hsqueezed : Text.squeeze p.declaration.text = Text.squeeze p.text := by
      simpa [String.ofList_inj] using heq
    rw [← Text.visible_squeeze, ← hsqueezed, Text.visible_squeeze]

end HasDefault

/-! ## 3. Members -/

/-- What stands at a place in the parameters of a member, brackets and commas included. -/
def parameterAt? (t : Tree) (i : Nat) : Option Tree :=
  t.parameters?.bind (·.children[i]?)

/-- Leaves out the default value of the parameter at a place of a list. -/
def withoutDefaultAt (i : Nat) : Tree → Tree
  | .leaf k r lead text => .leaf k r lead text
  | .node k r cs =>
    if k == .parameterList then
      .node k r (cs.take i ++ (cs[i]?.map fun p => p.declaration :: p.asides).getD [] ++
        cs.drop (i + 1))
    else .node k r cs

/-- A member without the default value of the parameter at a place. -/
def withoutDefault (i : Nat) (t : Tree) : Tree := t.editParameters (withoutDefaultAt i)

theorem inParameters_withoutDefaultAt (i : Nat) : InParameters (withoutDefaultAt i) where
  kind t := by
    cases t with
    | leaf k r lead text => rfl
    | node k r cs => rw [withoutDefaultAt]; split <;> rfl
  role t := by
    cases t with
    | leaf k r lead text => rfl
    | node k r cs => rw [withoutDefaultAt]; split <;> rfl
  other t h := by
    cases t with
    | leaf k r lead text => rfl
    | node k r cs =>
      have hk : k ≠ .parameterList := h
      rw [withoutDefaultAt, if_neg (by simpa using hk)]

/-- The trees in front of a place, the one at it and those behind it. -/
theorem split_at (h : ts[i]? = some p) : ts = ts.take i ++ p :: ts.drop (i + 1) := by
  obtain ⟨hi, rfl⟩ := List.getElem?_eq_some_iff.mp h
  rw [← List.drop_eq_getElem_cons hi, List.take_append_drop]

/-- Commas and brackets are not described. -/
theorem parameterList_children (t : Tree) : t.parameterList = t.children.filterMap described? := by
  rw [parameterList_eq, namedChildren, List.filterMap_filter]
  refine congrArg (List.filterMap · _) (funext fun p => ?_)
  split
  · rfl
  · rename_i hnamed
    rw [described?, show p.kind = .token by simpa [isNamed] using hnamed]

variable {ps : Tree}

theorem children_withoutDefaultAt (hkind : ps.kind = .parameterList)
    (hp : ps.children[i]? = some p) : (ps.withoutDefaultAt i).children =
      ps.children.take i ++ (p.declaration :: p.asides) ++ ps.children.drop (i + 1) := by
  cases ps with
  | leaf k r lead text => cases hp
  | node k r cs =>
    obtain rfl : k = .parameterList := hkind
    have hcs : cs[i]? = some p := hp
    rw [withoutDefaultAt, if_pos (by decide), hcs]
    rfl

/-- **The text of the parameters** without the default value of one of them. -/
theorem cut_withoutDefaultAt (h : built.Holds p) (hdefault : p.hasDefault = true)
    (hkind : ps.kind = .parameterList) (hp : ps.children[i]? = some p) :
    Cut (spellings p.defaultParts) ps.spelling (ps.withoutDefaultAt i).spelling := by
  have hrest := children_withoutDefaultAt hkind hp
  have hone : Cut (spellings p.defaultParts) p.spelling (spellings (p.declaration :: p.asides)) := by
    refine ⟨spellings (p.declaration :: p.asides), [], ?_, (List.append_nil _).symm⟩
    rw [spelling_children (children_ne_nil hdefault), children_split h hdefault,
      spellings_append, spellings_append, ← List.append_assoc, List.append_nil]
    rfl
  have hwhole : ps.spelling = spellings (ps.children.take i) ++ p.spelling ++
      spellings (ps.children.drop (i + 1)) := by
    rw [spelling_children (List.ne_nil_of_mem (List.mem_of_getElem? hp))]
    conv_lhs => rw [split_at hp]
    rw [spellings_append, spellings, List.append_assoc]
  have hrest : (ps.withoutDefaultAt i).spelling = spellings (ps.children.take i) ++
      spellings (p.declaration :: p.asides) ++ spellings (ps.children.drop (i + 1)) := by
    rw [spelling_children (by simp [hrest]), hrest, spellings_append, spellings_append]
  rw [hwhole, hrest]
  exact hone.around _ _

/-- **The parameters are described in the same way** exactly if the one is. -/
theorem parameterList_withoutDefaultAt (hkind : ps.kind = .parameterList)
    (hp : ps.children[i]? = some p) :
    (ps.withoutDefaultAt i).parameterList = ps.parameterList ↔
      p.declaration.described? = p.described? := by
  have hcons (q : Tree) (qs : List Tree) :
      (q :: qs).filterMap described? = q.described?.toList ++ qs.filterMap described? := by
    rw [List.filterMap_cons]
    cases q.described? <;> rfl
  have hasides : p.asides.filterMap described? = [] := by
    refine List.filterMap_eq_nil_iff.mpr fun u hu => ?_
    have haside : u.isAside = true := List.mem_rtakeWhile_imp hu
    rw [described?, eq_of_beq (Bool.and_eq_true_iff.mp haside).1]
  rw [parameterList_children, parameterList_children, children_withoutDefaultAt hkind hp,
    List.filterMap_append, List.filterMap_append, hcons, hasides, List.append_nil]
  conv_lhs => rhs; rw [split_at hp]
  rw [List.filterMap_append, hcons, ← List.append_assoc, List.append_left_inj,
    List.append_right_inj]
  exact ⟨fun h => by simpa using congrArg List.head? h, congrArg _⟩

end Tree

/-- **The description of a method is the same without the default value of a parameter**
exactly if the parameter declares no more than a name, which may be missing or stand inside
pointers, references and arrays. One that is described with its whole text takes the default
value along. -/
theorem default_kept_iff (text : String) {t p : Tree} {m : Method} {i : Nat}
    (ht : t ∈ (parse text.toList).methodTrees) (hm : t.method? = some m)
    (hp : t.parameterAt? i = some p) (hdefault : p.hasDefault = true) :
    DefaultValue p.defaultParts ∧
      Tree.Cut (Tree.spellings p.defaultParts) t.spelling (t.withoutDefault i).spelling ∧
      ((t.withoutDefault i).method? = some m ↔ p.speltWhole = false) := by
  have hbuilt := (parse_built text.toList).part (part_of_methodTrees ht)
  obtain ⟨P, rfl⟩ := Tree.exists_parts hm
  obtain ⟨ps, hps, hp⟩ := Option.bind_eq_some_iff.mp hp
  have hlist := hbuilt.part (Tree.part_of_parameters hps)
  have hparameter := hlist.part (.inside .whole (List.mem_of_getElem? hp))
  rw [P.parameters?_eq] at hps
  have hkind : ps.kind = .parameterList :=
    ((hlist ps .whole).2 .parameters (Tree.role_of_child? hps)).2 rfl
  refine ⟨(Tree.children_eq hparameter hdefault).2.1, ?_, ?_⟩
  · exact Tree.cut_editParameters P hps (Tree.cut_withoutDefaultAt hparameter hdefault hkind hp)
  · have hsame : P.method.parameters = ps.parameterList := by
      change ((P.function.child? .parameters).map Tree.parameterList).getD [] = _
      rw [hps]
      rfl
    rw [← Tree.described_declaration_iff hparameter hdefault,
      ← Tree.parameterList_withoutDefaultAt hkind hp, Tree.withoutDefault,
      Tree.method?_editParameters P hbuilt (Tree.inParameters_withoutDefaultAt i), hps]
    constructor
    · intro h
      exact (congrArg Method.parameters (Option.some.inj h)).trans hsame
    · intro h
      have hmethod := congrArg (fun as => { P.method with parameters := as })
        (h.trans hsame.symm)
      exact congrArg some hmethod

/-- A class with a method that takes a number, with a default value. -/
def countText : String := "class Foo \x7b public: void on(int a = 1); \x7d;\n"

/-- The default value of the number is no part of the description. -/
theorem count_default_dropped : ∃ t ∈ (parse countText.toList).methodTrees, ∃ p,
    t.parameterAt? 1 = some p ∧ p.hasDefault = true ∧
      (t.withoutDefault 1).method? = some ⟨"on", "void", [], [⟨"a", "int"⟩]⟩ := by
  have hmethod : (parse countText.toList).methodTrees.head?.bind Tree.method? =
      some ⟨"on", "void", [], [⟨"a", "int"⟩]⟩ := by
    decide +kernel
  have hparameter : ((parse countText.toList).methodTrees.head?.bind (·.parameterAt? 1)).any
      (fun p => p.hasDefault && !p.speltWhole) = true := by
    decide +kernel
  obtain ⟨t, ht, hm⟩ := Option.bind_eq_some_iff.mp hmethod
  rw [ht, Option.bind_some] at hparameter
  cases hp : t.parameterAt? 1 with
  | none =>
    rw [hp] at hparameter
    cases hparameter
  | some p =>
    rw [hp, Option.any_some, Bool.and_eq_true_iff, Bool.not_eq_true'] at hparameter
    obtain ⟨hdefault, hplain⟩ := hparameter
    have hmem := List.mem_of_head? ht
    exact ⟨t, hmem, p, hp, hdefault,
      (default_kept_iff countText hmem hm hp hdefault).2.2.mpr hplain⟩

/-- A class with a method that takes a pointer to a function, with a default value. -/
def callbackText : String :=
  "class Foo \x7b public: void on(void (*cb)(int) = nullptr); \x7d;\n"

/-- The same class without the default value. -/
def plainCallbackText : String := "class Foo \x7b public: void on(void (*cb)(int)); \x7d;\n"

/-- **The default value of the pointer stays** in the type of the parameter. -/
theorem callback_default_kept :
    (parse callbackText.toList).hasError = false ∧ (parse plainCallbackText.toList).hasError = false ∧
    (describe "foo.h" callbackText).classes.flatMap (·.methods) =
      [⟨"on", "void", [], [⟨"", "void (*cb)(int) = nullptr"⟩]⟩] ∧
    (describe "foo.h" plainCallbackText).classes.flatMap (·.methods) =
      [⟨"on", "void", [], [⟨"", "void (*cb)(int)"⟩]⟩] := by
  refine ⟨?_, ?_, ?_, ?_⟩ <;> decide +kernel

end Scaffold.Cpp
