import Scaffold.Proofs.Cpp.Built
import Scaffold.Proofs.Cpp.Described
import Scaffold.Proofs.Cpp.Layers

/-!
# How types are spelled

A type is squeezed, and so is a parameter that is spelled as a whole. What a declarator adds
to a type is put together layer by layer, and two kinds of pieces are taken over as they are
written.

* `Tree.copied` -- these pieces: the qualifiers of a pointer and the brackets of an array;
* `spaced_added`, `spaced_suffix` -- what a declarator adds keeps the spacing right exactly
  if the copied pieces are in normal form;
* `returned_normal_iff`, `described_normal_iff` -- so it is for the type that a method returns
  and for that of a parameter;
* `types_normal_iff` -- **the types in a description are in normal form exactly if their
  copied pieces are**; `size_not_squeezed`: the size of an array with more than one space in
  it is not.
-/
namespace Scaffold

/-- The types of a method: the one it returns and those of its parameters. -/
def Method.types (m : Method) : List String := m.returnType :: m.parameters.map Parameter.type

namespace Cpp

open Text (Normal Tight isBlank spacing squeeze normal_iff normal_squeeze walk_tight)
open Grammar (built)

/-! ## 1. Pieces -/

/-- Behind a word, the text leads to the end of a word if the pieces are in normal form, and
spoils what is in front of it if not. -/
def Spaced (cs : List Char) (pieces : List (List Char)) : Prop :=
  cs.foldl spacing (some false) = if ∀ w ∈ pieces, Normal w then some false else none

variable {cs ds : List Char} {ws vs : List (List Char)}

theorem spaced_nil : Spaced [] [] := rfl

theorem Spaced.append (h : Spaced cs ws) (h' : Spaced ds vs) : Spaced (cs ++ ds) (ws ++ vs) := by
  unfold Spaced at h h' ⊢
  rw [List.foldl_append, h]
  simp only [List.forall_mem_append]
  by_cases hw : ∀ w ∈ ws, Normal w
  · rw [if_pos hw, h']
    simp only [and_iff_right hw]
  · rw [if_neg hw, Text.foldl_none, if_neg fun hboth => hw hboth.1]

theorem spaced_flatMap {α : Type} {f : α → List Char} {g : α → List (List Char)} {xs : List α}
    (h : ∀ x ∈ xs, Spaced (f x) (g x)) : Spaced (xs.flatMap f) (xs.flatMap g) := by
  induction xs with
  | nil => exact spaced_nil
  | cons x xs ih =>
    obtain ⟨hx, hxs⟩ := List.forall_mem_cons.mp h
    exact hx.append (ih hxs)

/-- A tight text is a piece of its own, also behind a space. -/
theorem spaced_tight (h : Tight cs) : Spaced cs [cs] ∧ Spaced (' ' :: cs) [cs] := by
  have hwalk (b : Bool) : cs.foldl spacing (some b) =
      if ∀ w ∈ [cs], Normal w then some false else none := by
    rw [walk_tight h]
    simp only [List.forall_mem_singleton]
  exact ⟨hwalk false, hwalk true⟩

/-- **A text that ends in pieces** is in normal form exactly if they are, when what stands in
front of them is right. -/
theorem normal_append_iff (h : cs.foldl spacing (some true) = some false) (h' : Spaced ds ws) :
    Normal (cs ++ ds) ↔ ∀ w ∈ ws, Normal w := by
  have hne : cs ++ ds ≠ [] := by
    intro hnil
    rw [(List.append_eq_nil_iff.mp hnil).1] at h
    cases h
  rw [normal_iff, or_iff_right hne, List.foldl_append, h, h']
  split
  · rename_i hw
    exact iff_of_true rfl hw
  · rename_i hw
    exact iff_of_false (fun h => nomatch h) hw

namespace Tree

variable {t l : Tree}

/-! ## 2. Layers -/

/-- What a layer of a declarator takes over as it is written: the qualifiers of a pointer and
the brackets of an array. -/
def copied : Tree → List (List Char)
  | .leaf .. => []
  | .node kind r cs =>
    match kind with
    | .pointerDeclarator | .abstractPointerDeclarator =>
      (cs.filter (·.kind == .typeQualifier)).map text
    | .arrayDeclarator | .abstractArrayDeclarator =>
      ['[' :: (((Tree.node kind r cs).child? .size).map text).getD [] ++ [']']]
    | _ => []

/-- What a declarator takes over as it is written. -/
def copies (t : Tree) : List (List Char) := t.layers.flatMap copied

/-- The text of a qualifier begins and ends with visible characters. -/
theorem tight_of_built (h : built.Holds t) (hkind : t.kind = .typeQualifier) :
    Tight t.text := by
  have hroot := (Law.holds_iff.mp h).1
  cases t with
  | leaf kind r lead text => exact hroot hkind
  | node kind r cs =>
    obtain rfl : kind = .typeQualifier := hkind
    exact hroot

theorem spaced_qualifiers {ts : List Tree} (h : ∀ t ∈ ts, built.Holds t) :
    Spaced (pointerQualifiers ts) ((ts.filter (·.kind == .typeQualifier)).map text) := by
  rw [pointerQualifiers_eq, List.map_eq_flatMap]
  refine spaced_flatMap fun q hq => ?_
  obtain ⟨hmem, hkind⟩ := List.mem_filter.mp hq
  exact (spaced_tight (tight_of_built (h q hmem) (eq_of_beq hkind))).2

/-- **What a layer adds keeps the spacing right** exactly if what it copies is in normal form,
unless there is nothing inside but a comment. -/
theorem spaced_added {added : List Char} (h : built.Holds l) (hadded : l.added? = some added)
    (hinside : ∀ u, l.next? = some u → u.kind ≠ .comment) : Spaced added l.copied := by
  obtain ⟨hroot, -, hcs⟩ := Law.holds_iff.mp h
  have hpointer {cs : List Tree} (hcs : ∀ c ∈ cs, built.Holds c) :
      Spaced ('*' :: pointerQualifiers cs) ((cs.filter (·.kind == .typeQualifier)).map text) :=
    (Text.foldl_word (by decide)).trans (spaced_qualifiers hcs)
  have harray (size : List Char) : Spaced ('[' :: size ++ [']']) ['[' :: size ++ [']']] :=
    (spaced_tight ⟨⟨'[', rfl, by decide⟩,
      ⟨']', by rw [List.getLast?_concat]; rfl, by decide⟩⟩).1
  -- a comment in front of the mark would be what is inside
  have hreference {cs : List Tree} (hhead : ∃ t ∈ cs.head?, Grammar.heads t)
      (hinside : ∀ u, cs.find? isNamed = some u → u.kind ≠ .comment) :
      Spaced ((cs.head?.map text).getD ['&']) [] := by
    obtain ⟨t, ht, lead, mark, rfl | ⟨hmark, rfl⟩⟩ := hhead
    · obtain ⟨rest, rfl⟩ := List.head?_eq_some_iff.mp ht
      exact absurd rfl (hinside _ rfl)
    · rw [Option.mem_def.mp ht]
      rcases List.mem_cons.mp hmark with rfl | hmark
      · exact rfl
      · rw [List.mem_singleton.mp hmark]
        exact rfl
  cases l with
  | leaf kind r lead text => cases hadded
  | node kind r cs =>
    rw [added?.eq_def] at hadded
    dsimp only at hadded
    split at hadded <;> cases hadded
    · exact hpointer hcs
    · exact hpointer hcs
    · exact hreference hroot hinside
    · exact hreference hroot hinside
    · exact harray _
    · exact harray _

/-- **So does what a declarator adds**, unless it declares nothing but a comment. -/
theorem spaced_suffix (h : built.Holds t)
    (hinner : ∀ u, t.peel.inner = some u → u.kind ≠ .comment) : Spaced t.peel.suffix t.copies := by
  rw [suffix_layers, copies]
  refine spaced_flatMap fun l hl => ?_
  cases hadded : l.added? with
  | none =>
    have hlayer := added_of_layers t hl
    rw [hadded] at hlayer
    cases hlayer
  | some added =>
    refine spaced_added (h.part (part_of_layers t hl)) hadded fun u hu hcomment => ?_
    have hnone : u.added? = none := by
      cases u with
      | leaf kind r lead text => rfl
      | node kind r cs =>
        obtain rfl : kind = .comment := hcomment
        rfl
    exact hinner u (inner_of_layers hu hnone t hl) hcomment

/-! ## 3. Types -/

variable {declaration type : Tree} {suffix : List Char}

theorem squeezed_visible (h : type.Visible) :
    (squeeze type.text).foldl spacing (some true) = some false := by
  refine (normal_iff.mp (normal_squeeze type.text)).resolve_left fun hnil => ?_
  obtain ⟨c, hc, hvisible⟩ := h
  have hmem : c ∈ Text.visible type.text := List.mem_filter.mpr ⟨hc, by simp [hvisible]⟩
  rw [← Text.visible_squeeze, hnil] at hmem
  cases hmem

/-- A type with what a declarator adds is in normal form exactly if the copied pieces are. -/
theorem normal_spellType (htype : type.Visible) (h : Spaced suffix ws) :
    Normal (spellType declaration type suffix) ↔ ∀ w ∈ ws, Normal w := by
  refine normal_append_iff (Text.foldl_join (by simp) ?_) h
  intro w hw
  rcases List.mem_append.mp hw with hw | hw
  · have hword := (List.mem_filter.mp hw).2
    rcases Bool.or_eq_true_iff.mp hword with hconst | hvolatile
    · rw [eq_of_beq hconst]
      decide
    · rw [eq_of_beq hvolatile]
      decide
  · rw [List.mem_singleton.mp hw]
    exact squeezed_visible htype

/-! ## 4. Descriptions -/

/-- What the type that a method returns takes over as it is written. -/
def returnCopies (t : Tree) : List (List Char) :=
  match (t.declared?.bind (·.childOf? .trailingReturnType)).bind (·.namedChildren.head?) with
  | some _ => []
  | none => ((t.child? .declarator).map copies).getD []

/-- What the type of a parameter takes over as it is written. -/
def parameterCopies (p : Tree) : List (List Char) :=
  if p.kind == .variadicParameter || p.speltWhole then []
  else ((p.child? .declarator).map copies).getD []

theorem visible_of_built (h : built.Holds t) (htype : t.child? .type = some type) :
    type.Visible :=
  ((h.part (.child .whole htype) type .whole).2 .type (role_of_child? htype)).1 rfl

/-- **The type that a method returns** is in normal form exactly if its copied pieces are. -/
theorem returned_normal_iff {m : Method} (h : built.Holds t) (hm : t.method? = some m) :
    Normal m.returnType.toList ↔ ∀ w ∈ t.returnCopies, Normal w := by
  obtain ⟨P, rfl⟩ := exists_parts hm
  change Normal (String.ofList (t.returned _ _ _)).toList ↔ _
  rw [String.toList_ofList, returned, returnCopies, P.declared?_eq, Option.bind_some, P.hasDeclarator]
  cases (P.function.childOf? .trailingReturnType).bind (·.namedChildren.head?) with
  | some trailing => exact iff_of_true (normal_squeeze _) (List.forall_mem_nil _)
  | none =>
    refine normal_spellType (visible_of_built h P.hasType)
      (spaced_suffix (h.part (.child .whole P.hasDeclarator)) fun u hu => ?_)
    rw [← Option.some.inj (P.declares.symm.trans hu), P.isFunction]
    decide

theorem spaced_parameter {p : Tree} (h : built.Holds p) (hwhole : p.speltWhole = false) :
    Spaced p.suffix (((p.child? .declarator).map copies).getD []) := by
  unfold speltWhole declared? at hwhole
  unfold Tree.suffix
  cases hd : p.child? .declarator with
  | none => exact spaced_nil
  | some d =>
    refine spaced_suffix (h.part (.child .whole hd)) fun u hu hcomment => ?_
    rw [hd, Option.bind_some, hu, Option.any_some, hcomment] at hwhole
    cases hwhole

/-- **The type of a parameter** is in normal form exactly if its copied pieces are. -/
theorem described_normal_iff {p : Tree} {a : Parameter} (h : built.Holds p)
    (ha : p.described? = some a) :
    Normal a.type.toList ↔ ∀ w ∈ p.parameterCopies, Normal w := by
  have hplain (hkind : p.kind ≠ .variadicParameter) (ha : p.parameter? = some a) :
      Normal a.type.toList ↔ ∀ w ∈ p.parameterCopies, Normal w := by
    rw [parameter?_eq] at ha
    obtain ⟨type, htype, rfl⟩ := Option.map_eq_some_iff.mp ha
    rw [parameterCopies, beq_eq_false_iff_ne.mpr hkind, Bool.false_or]
    cases hwhole : p.speltWhole with
    | true =>
      refine iff_of_true ?_ (List.forall_mem_nil _)
      rw [if_pos rfl, String.toList_ofList]
      exact normal_squeeze _
    | false =>
      rw [if_neg Bool.false_ne_true, if_neg Bool.false_ne_true, String.toList_ofList]
      exact normal_spellType (visible_of_built h htype) (spaced_parameter h hwhole)
  unfold described? at ha
  split at ha
  · rename_i hkind
    exact hplain (by rw [hkind]; decide) ha
  · rename_i hkind
    exact hplain (by rw [hkind]; decide) ha
  · rename_i hkind
    obtain rfl := Option.some.inj ha
    refine iff_of_true ?_ ?_
    · rw [String.toList_ofList]
      exact normal_squeeze _
    · rw [parameterCopies, hkind]
      exact List.forall_mem_nil _
  · cases ha

/-- What the types of a method take over as it is written. -/
def methodCopies (t : Tree) : List (List Char) :=
  t.returnCopies ++ t.parameterTrees.flatMap parameterCopies

/-- **The types of a method** are in normal form exactly if their copied pieces are. -/
theorem method_normal_iff {m : Method} (h : built.Holds t) (hm : t.method? = some m) :
    (∀ s ∈ m.types, Normal s.toList) ↔ ∀ w ∈ t.methodCopies, Normal w := by
  rw [Method.types, methodCopies, List.forall_mem_cons, List.forall_mem_append,
    returned_normal_iff h hm, List.forall_mem_map, parameters_eq hm]
  simp only [List.mem_filterMap, List.mem_flatMap]
  refine and_congr Iff.rfl ⟨fun hall w ⟨p, hp, hw⟩ => ?_, fun hall a ⟨p, hp, ha⟩ => ?_⟩
  · obtain ⟨a, ha⟩ := Option.isSome_iff_exists.mp (List.mem_filter.mp hp).2
    exact (described_normal_iff (h.part (part_of_parameterTrees hp)) ha).mp
      (hall a ⟨p, hp, ha⟩) w hw
  · exact (described_normal_iff (h.part (part_of_parameterTrees hp)) ha).mpr
      fun w hw => hall w ⟨p, hp, hw⟩

end Tree

/-- **The types in the description of a header are in normal form** exactly if all that their
declarators take over as it is written is: the qualifiers of pointers and the brackets of
arrays. -/
theorem types_normal_iff (name text : String) :
    (∀ c ∈ (describe name text).classes, ∀ m ∈ c.methods, ∀ s ∈ m.types, Normal s.toList) ↔
      ∀ t ∈ (parse text.toList).methodTrees, ∀ w ∈ t.methodCopies, Normal w := by
  have hmethods : (∀ c ∈ (describe name text).classes, ∀ m ∈ c.methods, ∀ s ∈ m.types,
      Normal s.toList) ↔
      ∀ t ∈ (parse text.toList).methodTrees, ∀ m, t.method? = some m → ∀ s ∈ m.types,
        Normal s.toList := by
    have heq := methods_eq name (parse text.toList)
    change (describe name text).classes.flatMap (·.methods) = _ at heq
    rw [← List.forall_mem_flatMap, heq]
    simp only [List.mem_filterMap]
    exact ⟨fun h t ht m hm => h m ⟨t, ht, hm⟩, fun h m ⟨t, ht, hm⟩ => h t ht m hm⟩
  rw [hmethods]
  refine forall₂_congr fun t ht => ?_
  have hbuilt := (parse_built text.toList).part (part_of_methodTrees ht)
  obtain ⟨m, hm⟩ := Option.isSome_iff_exists.mp (List.mem_filter.mp ht).2
  rw [← Tree.method_normal_iff hbuilt hm]
  exact ⟨fun h => h m hm, fun h m' hm' => Option.some.inj (hm.symm.trans hm') ▸ h⟩

/-- A class with a method that takes an array whose size is spread out. -/
def spreadText : String := "class Foo \x7b public: void f(int a[2  +  3]); \x7d;\n"

/-- **The spaces in the size stay** in the type of the parameter. -/
theorem size_not_squeezed : (parse spreadText.toList).hasError = false ∧
    (describe "foo.h" spreadText).classes = [⟨"Foo", "MockFoo", [], [],
      [⟨"f", "void", [], [⟨"a", "int[2  +  3]"⟩]⟩]⟩] ∧
    ¬∀ c ∈ (describe "foo.h" spreadText).classes, ∀ m ∈ c.methods, ∀ s ∈ m.types,
      Normal s.toList := by
  have hclasses : (describe "foo.h" spreadText).classes = [⟨"Foo", "MockFoo", [], [],
      [⟨"f", "void", [], [⟨"a", "int[2  +  3]"⟩]⟩]⟩] := by
    decide +kernel
  refine ⟨by decide +kernel, hclasses, ?_⟩
  rw [hclasses]
  decide

end Cpp

end Scaffold
