import Scaffold.Proofs.Cpp.Layers
import Scaffold.Proofs.Cpp.Occurrences
import Scaffold.Proofs.Cpp.Words

/-!
# The trees behind a description

* `Occurrence.members` -- the public members of a class that declare something;
* `Tree.methodTrees` -- those of all classes that are described, as far as they are methods;
  `methods_eq`: **the methods in a description are read off these trees**, and
  `part_of_methodTrees`: all of them are parts of the tree of the text;
* `MethodParts` -- the parts of a member that a method is read off; `exists_parts`: **a
  method has these parts, and it is what they say**;
* `describe_namespaces` -- the namespaces around the classes are words.
-/
namespace Scaffold.Cpp

open Text (isWord)

/-- The public members of a class that declare something. -/
def Occurrence.members (o : Occurrence) : List Tree :=
  publicMembers (initialAccess o.here.node)
    (((o.here.node.child? .body).map Tree.namedChildren).getD [])

/-- The trees of the methods that are described. -/
def Tree.methodTrees (t : Tree) : List Tree :=
  ((t.occurrences.filter (·.describe?.isSome)).flatMap Occurrence.members).filter
    (·.method?.isSome)

/-- What gives nothing need not be looked at. -/
theorem filterMap_isSome {α β : Type} (f : α → Option β) (xs : List α) :
    (xs.filter (f · |>.isSome)).filterMap f = xs.filterMap f := by
  rw [List.filterMap_filter]
  refine congrArg (List.filterMap · xs) (funext fun x => ?_)
  cases f x <;> rfl

/-! ## 1. Descriptions of classes -/

variable {o : Occurrence} {c : ClassDecl} {t u : Tree} {name : String}

theorem of_describe? (h : o.describe? = some c) :
    c.methods = o.members.filterMap Tree.method? ∧
      c.namespaces = o.around.flatMap Standing.namespaces := by
  unfold Occurrence.describe? at h
  split at h
  · obtain ⟨name, -, rfl⟩ := Option.map_eq_some_iff.mp h
    exact ⟨rfl, rfl⟩
  · cases h

/-- The classes of a description are described at places of the tree. -/
theorem place_of_class (hc : c ∈ (t.describe name).classes) :
    ∃ o ∈ t.occurrences, o.describe? = some c :=
  List.mem_filterMap.mp
    ((describe_from [] .translationUnit t (List.isChain_singleton _)).symm ▸ hc)

/-- **The methods in a description are read off the trees of methods**, in order. -/
theorem methods_eq (name : String) (t : Tree) :
    (t.describe name).classes.flatMap (·.methods) = t.methodTrees.filterMap Tree.method? := by
  have hclasses : (t.describe name).classes = t.occurrences.filterMap Occurrence.describe? :=
    (describe_from [] .translationUnit t (List.isChain_singleton _)).symm
  rw [hclasses, Tree.methodTrees, filterMap_isSome]
  induction t.occurrences with
  | nil => rfl
  | cons o os ih =>
    cases ho : o.describe? with
    | none => rw [List.filterMap_cons_none ho, List.filter_cons_of_neg (by simp [ho]), ih]
    | some c =>
      rw [List.filterMap_cons_some ho, List.filter_cons_of_pos (by simp [ho]), List.flatMap_cons,
        List.flatMap_cons, List.filterMap_append, ih, (of_describe? ho).1]

/-! ## 2. Parts of the tree -/

theorem mem_of_mem_publicMembers {a : Tree.Access} {ts : List Tree}
    (h : u ∈ publicMembers a ts) : u ∈ ts := by
  obtain ⟨m, hm, rfl⟩ := List.mem_map.mp h
  exact (List.of_mem_zip (List.mem_filter.mp hm).1).2

/-- The members of a class are parts of it. -/
theorem part_of_members (h : u ∈ o.members) : o.here.node.Part u := by
  have hmem := mem_of_mem_publicMembers h
  cases hbody : o.here.node.child? .body with
  | none =>
    rw [hbody] at hmem
    cases hmem
  | some body =>
    rw [hbody] at hmem
    exact .inside (Tree.Part.child .whole hbody) (List.mem_filter.mp hmem).1

mutual

/-- The nodes on the way to a node are parts of the tree. -/
theorem part_of_path {root : Tree} (around : List Standing) (parent : Kind) (isBody : Bool) :
    ∀ t : Tree, root.Part t → (∀ s ∈ around, root.Part s.node) →
      ∀ o ∈ t.occurrencesFrom around parent isBody, ∀ s ∈ o.path, root.Part s.node
  | .leaf .., ht, haround, o, ho => by
      rw [Tree.occurrencesFrom, List.mem_singleton] at ho
      rw [ho]
      exact List.forall_mem_append.mpr ⟨haround, List.forall_mem_singleton.mpr ht⟩
  | .node k r cs, ht, haround, o, ho => by
      have hpath := List.forall_mem_append.mpr ⟨haround, List.forall_mem_singleton.mpr
        (show root.Part (Standing.node ⟨parent, isBody, .node k r cs⟩) from ht)⟩
      rw [Tree.occurrencesFrom] at ho
      rcases List.mem_cons.mp ho with rfl | ho
      · exact hpath
      · exact part_of_path_below _ k _ cs (fun c hc => .inside ht hc) hpath o ho

theorem part_of_path_below {root : Tree} (around : List Standing) (parent : Kind)
    (expected : Bool) : ∀ ts : List Tree, (∀ t ∈ ts, root.Part t) →
      (∀ s ∈ around, root.Part s.node) →
      ∀ o ∈ Tree.occurrencesBelow around parent expected ts, ∀ s ∈ o.path, root.Part s.node
  | [], _, _, o, ho => by
      rw [Tree.occurrencesBelow] at ho
      cases ho
  | t :: ts, hts, haround, o, ho => by
      obtain ⟨ht, hts⟩ := List.forall_mem_cons.mp hts
      rw [Tree.occurrencesBelow] at ho
      rcases List.mem_append.mp ho with ho | ho
      · exact part_of_path around parent _ t ht haround o ho
      · exact part_of_path_below around parent _ ts hts haround o ho

end

theorem part_of_occurrences (ho : o ∈ t.occurrences) : ∀ s ∈ o.path, t.Part s.node :=
  part_of_path [] .translationUnit false t .whole (List.forall_mem_nil _) o ho

/-- **The trees of methods are parts of the tree.** -/
theorem part_of_methodTrees (h : u ∈ t.methodTrees) : t.Part u := by
  obtain ⟨o, ho, hu⟩ := List.mem_flatMap.mp (List.mem_filter.mp h).1
  refine .trans ?_ (part_of_members hu)
  exact part_of_occurrences (List.mem_filter.mp ho).1 o.here (List.mem_append_right _
    List.mem_cons_self)

/-! ## 3. Methods -/

namespace Tree

/-- The type that a function returns: the one behind its parameters, or else the one in
front of its declarator. -/
def returned (t type : Tree) (suffix : List Char) (function : Tree) : List Char :=
  match (function.childOf? .trailingReturnType).bind (·.namedChildren.head?) with
  | some trailing => Text.squeeze trailing.text
  | none => spellType t type suffix

/-- The specifiers of a member that declares a function. -/
def specified (t function : Tree) : List Specifier :=
  (if (t.childOf? .virtual).isSome || (t.childOf? .virtualSpecifier).isSome ||
      (function.childOf? .virtualSpecifier).isSome then [.override] else []) ++
    if function.namedChildren.any fun c => c.kind == .typeQualifier && c.text == "const".toList
    then [.const] else []

/-- What is described of a tree in a list of parameters. -/
def described? (p : Tree) : Option Parameter :=
  match p.kind with
  | .parameterDeclaration | .optionalParameter => p.parameter?
  | .variadicParameter => some ⟨"", String.ofList (Text.squeeze p.text)⟩
  | _ => none

theorem parameterList_eq (t : Tree) :
    t.parameterList = t.namedChildren.filterMap described? := rfl

/-- What a parameter declares. -/
def declared? (p : Tree) : Option Tree := (p.child? .declarator).bind (·.peel.inner)

/-- What the declarator of a parameter adds to its type. -/
def suffix (p : Tree) : List Char := ((p.child? .declarator).map (·.peel.suffix)).getD []

/-- A parameter that declares more than a name is described with its whole text. -/
def speltWhole (p : Tree) : Bool := p.declared?.any (·.kind != .identifier)

/-- **What is described of a parameter** is its name and its type as it is spelled, or its whole
text; without a type it is nothing. -/
theorem parameter?_eq (p : Tree) : p.parameter? = (p.child? .type).map fun type =>
    if p.speltWhole then ⟨"", String.ofList (Text.squeeze p.text)⟩
    else ⟨String.ofList ((p.declared?.map text).getD []),
      String.ofList (spellType p type p.suffix)⟩ := by
  unfold parameter? speltWhole declared? suffix
  cases p.child? .type with
  | none => rfl
  | some type =>
    cases p.child? .declarator with
    | none => rfl
    | some d =>
      cases hinner : d.peel.inner with
      | none => simp [hinner]
      | some u => by_cases h : u.kind = .identifier <;> simp [hinner, h]

/-- The parts of a member that declares a function with a plain name. -/
structure MethodParts (t : Tree) where
  type : Tree
  declarator : Tree
  function : Tree
  name : Tree
  hasType : t.child? .type = some type
  hasDeclarator : t.child? .declarator = some declarator
  declares : declarator.peel.inner = some function
  isFunction : function.kind = .functionDeclarator
  hasName : function.child? .declarator = some name
  isPlain : name.kind = .fieldIdentifier ∨ name.kind = .identifier

/-- The list of the parameters of a member. -/
def parameters? (t : Tree) : Option Tree := t.declared?.bind (·.child? .parameters)

/-- The trees that the parameters of a member are described from. -/
def parameterTrees (t : Tree) : List Tree :=
  ((t.parameters?.map namedChildren).getD []).filter (·.described?.isSome)

/-- The method that the parts make. -/
def MethodParts.method (P : MethodParts t) : Method :=
  .describe (String.ofList P.name.text)
    (String.ofList (t.returned P.type P.declarator.peel.suffix P.function))
    (t.specified P.function) (((P.function.child? .parameters).map parameterList).getD [])

theorem MethodParts.method?_eq (P : MethodParts t) : t.method? = some P.method := by
  have hname : (P.name.kind != .fieldIdentifier && P.name.kind != .identifier) = false := by
    rcases P.isPlain with h | h <;> rw [h] <;> rfl
  have hfunction : (P.function.kind != .functionDeclarator) = false := by
    rw [P.isFunction]
    rfl
  unfold method?
  simp only [Option.bind_eq_bind, P.hasType, P.hasDeclarator, P.declares, P.hasName,
    Option.bind_some, hfunction, hname, Bool.false_eq_true, if_false]
  rfl

/-- **A method is what its parts say.** -/
theorem exists_parts {m : Method} (h : t.method? = some m) :
    ∃ P : MethodParts t, m = P.method := by
  have hm := h
  unfold method? at h
  simp only [Option.bind_eq_bind, Option.bind_eq_some_iff] at h
  obtain ⟨type, htype, d, hd, function, hfunction, h⟩ := h
  split at h
  · cases h
  · rename_i hkind
    obtain ⟨name, hname, h⟩ := Option.bind_eq_some_iff.mp h
    split at h
    · cases h
    · rename_i hplain
      have hisPlain : name.kind = .fieldIdentifier ∨ name.kind = .identifier := by
        by_contra hneither
        obtain ⟨hfield, hidentifier⟩ := not_or.mp hneither
        exact hplain (by simp [hfield, hidentifier])
      let P : MethodParts t :=
        ⟨type, d, function, name, htype, hd, hfunction, by simpa using hkind, hname, hisPlain⟩
      exact ⟨P, Option.some.inj (hm.symm.trans P.method?_eq)⟩

theorem MethodParts.declared?_eq (P : MethodParts t) : t.declared? = some P.function := by
  rw [declared?, P.hasDeclarator, Option.bind_some, P.declares]

theorem MethodParts.parameters?_eq (P : MethodParts t) :
    t.parameters? = P.function.child? .parameters := by
  rw [parameters?, P.declared?_eq, Option.bind_some]

/-- **The parameters of a method are described from their trees.** -/
theorem parameters_eq {m : Method} (h : t.method? = some m) :
    m.parameters = t.parameterTrees.filterMap described? := by
  obtain ⟨P, rfl⟩ := exists_parts h
  rw [parameterTrees, P.parameters?_eq, filterMap_isSome]
  change ((P.function.child? .parameters).map parameterList).getD [] = _
  cases P.function.child? .parameters <;> rfl

/-- The list of the parameters is a part of the member. -/
theorem part_of_parameters {ps : Tree} (h : t.parameters? = some ps) : t.Part ps := by
  obtain ⟨function, hfunction, hps⟩ := Option.bind_eq_some_iff.mp h
  obtain ⟨d, hd, hinner⟩ := Option.bind_eq_some_iff.mp hfunction
  exact .child (.trans (.child .whole hd) (part_of_peel d hinner)) hps

/-- And so are the trees in it. -/
theorem part_of_parameterTrees {p : Tree} (h : p ∈ t.parameterTrees) : t.Part p := by
  have hmem := (List.mem_filter.mp h).1
  cases hps : t.parameters? with
  | none =>
    rw [hps] at hmem
    cases hmem
  | some ps =>
    rw [hps] at hmem
    exact .inside (part_of_parameters hps) (List.mem_filter.mp hmem).1

end Tree

/-! ## 4. Namespaces -/

mutual

/-- The names of a namespace are words. -/
theorem namespaceNames_words : ∀ t : Tree, t.Named →
    ∀ n ∈ t.namespaceNames, isWord n = true
  | .leaf kind r lead text, h, n, hn => by
      rw [Tree.namespaceNames] at hn
      split at hn
      · rename_i hkind
        rw [List.mem_singleton.mp hn]
        refine h.word ?_
        rw [Tree.kind, eq_of_beq hkind]
        rfl
      · cases hn
  | .node kind r cs, h, n, hn => by
      rw [Tree.namespaceNames] at hn
      split at hn
      · exact namespaceNamesOf_words cs h.children n hn
      · cases hn

theorem namespaceNamesOf_words : ∀ ts : List Tree, (∀ t ∈ ts, t.Named) →
    ∀ n ∈ Tree.namespaceNamesOf ts, isWord n = true
  | [], _, n, hn => by
      rw [Tree.namespaceNamesOf] at hn
      cases hn
  | t :: ts, h, n, hn => by
      obtain ⟨ht, hts⟩ := List.forall_mem_cons.mp h
      rw [Tree.namespaceNamesOf] at hn
      rcases List.mem_append.mp hn with hn | hn
      · exact namespaceNames_words t ht n hn
      · exact namespaceNamesOf_words ts hts n hn

end

theorem Standing.namespaces_words {s : Standing} (h : s.node.Named) :
    ∀ n ∈ s.namespaces, isWord n.toList = true := by
  intro n hn
  unfold Standing.namespaces at hn
  split at hn
  · obtain ⟨w, hw, rfl⟩ := List.mem_map.mp hn
    rw [String.toList_ofList]
    cases hname : s.node.child? .name with
    | none =>
      rw [hname] at hw
      cases hw
    | some name =>
      rw [hname] at hw
      exact namespaceNames_words name (h.child hname) w hw
  · cases hn

/-- **The namespaces around the classes of a header are words**, whatever its text is. -/
theorem describe_namespaces (name text : String) :
    ∀ c ∈ (describe name text).classes, ∀ n ∈ c.namespaces, isWord n.toList = true := by
  intro c hc n hn
  obtain ⟨o, ho, hdescribe⟩ := place_of_class hc
  rw [(of_describe? hdescribe).2] at hn
  obtain ⟨s, hs, hn⟩ := List.mem_flatMap.mp hn
  have hpart := part_of_occurrences ho s (List.mem_append_left _ hs)
  exact Standing.namespaces_words ((parse_named _).part hpart) n hn

end Scaffold.Cpp
