import Scaffold.Proofs.Cpp.ClassLines
import Scaffold.Proofs.Cpp.Nesting

/-!
# The header of an interface read again

The header of an interface declares the top-level classes of a header, and is itself a header that
is described.

* `headerTokens` -- the tokens of such a header; `toList_text`, `tokens_text`: it is written as
  these tokens and read as these tokens;
* `takes_classes`, `takes_directives` -- the grammar reads it item by item;
* `describe_text` -- **the classes that are described of it are the ones that it is made from, with
  the bounds of their parameters turned**;
* `interface_again_iff` -- so they are the same **exactly if the bounds of all parameters read the
  same from either end**.
-/
namespace Scaffold.Cpp

open Artifact (banner classBlocks)
open Artifact.InterfaceHeader (includeLines classLines)
open Grammar
open Pattern

variable {ts us rest : List Token} {a b : List Tree} {ns : List (List Char)} {C : ClassText}
  {Cs : List ClassText} {c : ClassDecl} {cs : List ClassDecl} {i : Include} {is : List Include}

/-! ## 1. The tokens of a header -/

/-- The include directives, behind an empty line. -/
def directiveTokens : List Include → List Token
  | [] => []
  | i :: is => includeTokens ['\n', '\n'] i.system i.name.toList ++
      is.flatMap fun i => includeTokens ['\n'] i.system i.name.toList

/-- The comment that a generated file begins with. -/
def bannerToken (name : String) : Token :=
  ⟨.comment, [], '/' :: '/' :: (" Generated by testgen from " ++ name ++ ".").toList⟩

/-- The tokens of the header of an interface. -/
def headerTokens (name : String) (is : List Include) (Cs : List ClassText) : List Token :=
  bannerToken name :: pragmaToken ['\n', '\n'] ::
    (directiveTokens is ++ Cs.flatMap ClassText.tokens)

theorem spelled_include (lead : List Char) (i : Include) :
    spelled (includeTokens lead i.system i.name.toList) =
      lead ++ ("#include " ++ i.operand).toList := by
  unfold Include.operand includeTokens operandToken
  cases i.system <;> simp

theorem spelled_directives (h : Header) :
    spelled (directiveTokens h.includes) = rows (includeLines h) := by
  unfold includeLines
  cases h.includes with
  | nil => rfl
  | cons i is =>
    have hmore : spelled (is.flatMap fun i => includeTokens ['\n'] i.system i.name.toList) =
        rows (is.map fun i => "#include " ++ i.operand) := by
      induction is with
      | nil => rfl
      | cons i is ih =>
        rw [List.flatMap_cons, spelled_append, spelled_include, ih]
        rfl
    rw [directiveTokens, spelled_append, spelled_include, hmore]
    simp

/-- The lines of the classes. -/
theorem spelled_classes (hCs : ∀ C ∈ Cs, C.Valid)
    (h : cs.map ClassDecl.interface = Cs.map ClassText.decl) :
    spelled (Cs.flatMap ClassText.tokens) =
      rows (cs.flatMap fun c => "" :: Artifact.insideNamespaces c (classLines c)) := by
  induction Cs generalizing cs with
  | nil =>
    rw [List.map_eq_nil_iff.mp h]
    rfl
  | cons C Cs ih =>
    obtain ⟨hC, hCs⟩ := List.forall_mem_cons.mp hCs
    obtain ⟨c, cs, rfl, hc, hcs⟩ := List.map_eq_cons_iff.mp h
    rw [List.flatMap_cons, spelled_append, spelled_class hC hc, ih hCs hcs, List.flatMap_cons,
      rows_append]

/-- **The header of an interface is written as these tokens.** -/
theorem toList_text (h : Header) (hCs : ∀ C ∈ Cs, C.Valid)
    (hclasses : h.topLevel.map ClassDecl.interface = Cs.map ClassText.decl) :
    (Artifact.InterfaceHeader.text h).toList =
      spelled (headerTokens h.name h.includes Cs) ++ ['\n'] := by
  have hlines : Artifact.InterfaceHeader.lines h =
      ("// Generated by testgen from " ++ h.name ++ ".") ::
        ("" :: "#pragma once" :: (includeLines h ++ classBlocks h classLines)) := rfl
  rw [Artifact.InterfaceHeader.text, hlines, toList_unlines]
  rw [headerTokens, spelled_cons, spelled_cons, spelled_append, spelled_directives,
    spelled_classes hCs hclasses]
  simp [bannerToken, pragmaToken, classBlocks]

/-! ## 2. Reading the lines -/

/-- The name of a file that an include directive has is written between its delimiters. -/
def Included (is : List Include) : Prop := ∀ i ∈ is, Operand i.system i.name.toList

/-- The tokens stand on further lines, if there are any. -/
structure Further (ts : List Token) : Prop where
  lines : Lines ts
  feed : ts ≠ [] → (spelled ts).head? = some '\n'

theorem Further.nil : Further [] := ⟨fun _ => .nil, fun h => absurd rfl h⟩

theorem Lines.further (h : Lines ts) (h' : Further us) : Lines (ts ++ us) := by
  by_cases hus : us = []
  · rwa [hus, List.append_nil]
  · exact h.append h'.lines (h'.feed hus)

theorem Further.append (h : Further ts) (h' : Further us) : Further (ts ++ us) := by
  refine ⟨h.lines.further h', fun _ => ?_⟩
  by_cases hts : ts = []
  · subst hts
    exact h'.feed ‹_›
  · rw [spelled_append, List.head?_append, h.feed hts, Option.some_or]

theorem Further.flatMap {α : Type} {xs : List α} {f : α → List Token}
    (h : ∀ x ∈ xs, Further (f x)) :
    Further (xs.flatMap f) := by
  induction xs with
  | nil => exact .nil
  | cons x xs ih =>
    obtain ⟨hx, hxs⟩ := List.forall_mem_cons.mp h
    rw [List.flatMap_cons]
    exact hx.append (ih hxs)

theorem further_directives (his : Included is) : Further (directiveTokens is) := by
  cases is with
  | nil => exact .nil
  | cons i is =>
    obtain ⟨hi, his⟩ := List.forall_mem_cons.mp his
    have hfirst : Further (includeTokens ['\n', '\n'] i.system i.name.toList) :=
      ⟨lexes_include (by decide) hi, fun _ => rfl⟩
    exact hfirst.append (.flatMap fun i hi => ⟨lexes_include (by decide) (his i hi), fun _ => rfl⟩)

theorem further_class (hC : C.Valid) : Further C.tokens := by
  refine ⟨lines_class hC, fun _ => ?_⟩
  rw [ClassText.tokens]
  cases C.namespaces <;> rfl

/-- **The header of an interface is read line by line.** -/
theorem lines_header {name : String} (hname : OneLine name.toList) (his : Included is)
    (hCs : ∀ C ∈ Cs, C.Valid) : Lines (headerTokens name is Cs) := by
  have hbanner : Lines [bannerToken name] := fun rest => by
    have hline : OneLine (" Generated by testgen from " ++ name ++ ".").toList := by
      simp only [String.toList_append]
      exact List.forall_mem_append.mpr ⟨List.forall_mem_append.mpr
        ⟨List.forall_iff_forall_mem.mp (by decide), hname⟩,
        List.forall_iff_forall_mem.mp (by decide)⟩
    have hcomment := lexes_comment (List.forall_mem_nil _) hline rest
    simpa [bannerToken] using hcomment
  have hfeeds : Gap ['\n', '\n'] := by decide
  have hpragma : Further [pragmaToken ['\n', '\n']] :=
    ⟨fun rest => by simpa [pragmaToken] using lexes_pragma hfeeds rest, fun _ => rfl⟩
  have hclasses : Further (Cs.flatMap ClassText.tokens) :=
    .flatMap fun C hC => further_class (hCs C hC)
  exact hbanner.further (hpragma.append ((further_directives his).append hclasses))

/-- **The tokens of the header of an interface are read off its text.** -/
theorem tokens_text (h : Header) (hname : OneLine h.name.toList) (his : Included h.includes)
    (hCs : ∀ C ∈ Cs, C.Valid)
    (hclasses : h.topLevel.map ClassDecl.interface = Cs.map ClassText.decl) :
    tokens (Artifact.InterfaceHeader.text h).toList = headerTokens h.name h.includes Cs := by
  have hlexes := lines_header hname his hCs []
  rw [← toList_text h hCs hclasses] at hlexes
  have hfeed : Gap ['\n'] := by decide
  refine tokens_eq hlexes hfeed.isSpace ?_
  rw [toList_text h hCs hclasses]
  simp [headerTokens, bannerToken]

/-! ## 3. What the grammar reads -/

theorem decl_turned (C : ClassText) : C.turned.decl =
    { ClassDecl.describe (String.ofList C.name) (C.namespaces.map String.ofList) [] with
      methods := C.methods.map (·.turned.method) } := by
  rw [ClassText.decl, ClassText.turned, List.map_map]
  rfl

/-- No item ends a text. -/
theorem fails_stop : Fails grammar (.alts []) ts := .alts (List.forall_mem_nil _)

/-- **The classes are read one by one**, behind the comment of the one before, and the walk finds
them. -/
theorem takes_classes (hCs : ∀ C ∈ Cs, C.Valid) (ns : List (List Char)) : ∃ a,
    (Tree.visitAll ⟨[], []⟩ .translationUnit a).classes = Cs.map (·.turned.decl) ∧
      Takes grammar (.items (.rule .item) (.alts []))
        (trail ns ++ Cs.flatMap ClassText.tokens) a [] := by
  have hcomments (ns : List (List Char)) : (Tree.visitAll ⟨[], []⟩ .translationUnit
      ((trail ns).map (Token.leaf .comment))).classes = [] := by
    cases ns <;> rfl
  induction Cs generalizing ns with
  | nil =>
    refine ⟨(trail ns).map (Token.leaf .comment), hcomments ns, .items_end fails_stop ?_ ?_⟩
    · have hend : Sees [.ending] (trail ns ++ [].flatMap ClassText.tokens) := by
        cases ns <;> rfl
      exact fails_of_glance hend (by decide)
    · cases ns <;> rfl
  | cons C Cs ih =>
    obtain ⟨hC, hCs⟩ := List.forall_mem_cons.mp hCs
    obtain ⟨b, hb, hmore⟩ := ih hCs C.namespaces
    obtain ⟨a, ha, hread⟩ := takes_block hC.name hC.methods hC.namespaces ['\n', '\n']
      (trail C.namespaces ++ Cs.flatMap ClassText.tokens)
    refine ⟨(trail ns).map (Token.leaf .comment) ++ a ++ b, ?_, ?_⟩
    · rw [visitAll_append, visitAll_append, hcomments, ha ⟨[], []⟩ .translationUnit (by decide), hb,
        List.map_cons, decl_turned]
      rfl
    · have hsplit : splitComments (trail ns ++ (C :: Cs).flatMap ClassText.tokens) =
          ((trail ns).map (Token.leaf .comment),
           blockTokens C.name C.methods ['\n', '\n'] C.namespaces ++
            (trail C.namespaces ++ Cs.flatMap ClassText.tokens)) := by
        obtain ⟨t, us, hblock, l, -, ht⟩ := begins_block C.name C.methods ['\n', '\n'] C.namespaces
          (trail C.namespaces ++ Cs.flatMap ClassText.tokens)
        rw [List.flatMap_cons, ClassText.tokens, List.append_assoc, hblock]
        exact splitComments_trail ns t ht.ne_comment us
      exact .items_cons fails_stop (hread _ _ hsplit) hmore

/-- **An include directive is read as an item.** -/
theorem takes_include (lead : List Char) (i : Include) (rest : List Token) : ∃ a,
    Takes grammar (.rule .item) (includeTokens lead i.system i.name.toList ++ rest)
      [.node .include none a] rest := by
  have hword : (Look.directive "include").Fits
      ⟨.directive "include".toList, lead, "#include".toList⟩ :=
    rfl
  have hsort {k : Kind} {sort : TokenClass} {text : List Char} (hne : sort ≠ .comment) :
      Takes grammar (.sort k sort) (⟨sort, [' '], text⟩ :: rest) [.leaf k none [' '] text] rest :=
    .token rfl (splitComments_of_ne hne) (beq_self_eq_true sort)
  obtain ⟨x, hx⟩ : ∃ x,
      Takes grammar operand (operandToken i.system i.name.toList :: rest) [x] rest := by
    unfold operandToken
    cases i.system with
    | true => exact ⟨_, .first (hsort nofun)⟩
    | false => exact ⟨_, .next (.token rfl (fun t ht => by rw [← Option.some.inj ht]; rfl))
        (.first (hsort nofun))⟩
  exact ⟨_, takes_alternative 3 rfl rfl (sees_one hword) (by decide)
    (.node_front rfl (.cons (takes_look rfl hword (by decide)) hx.role.last))⟩

/-- In front of the classes nothing is found. -/
theorem takes_directives (is : List Include)
    (h : Takes grammar (.items (.rule .item) (.alts [])) ts b []) :
    ∃ a, (Tree.visitAll ⟨[], []⟩ .translationUnit a).classes = [] ∧
      Takes grammar (.items (.rule .item) (.alts [])) (directiveTokens is ++ ts) (a ++ b) [] := by
  have hone (lead : List Char) (i : Include) {us : List Token} {c : List Tree}
      (hc : (Tree.visitAll ⟨[], []⟩ .translationUnit c).classes = [])
      (hus : Takes grammar (.items (.rule .item) (.alts [])) us (c ++ b) []) :
      ∃ a, (Tree.visitAll ⟨[], []⟩ .translationUnit a).classes = [] ∧
        Takes grammar (.items (.rule .item) (.alts []))
          (includeTokens lead i.system i.name.toList ++ us) (a ++ b) [] := by
    obtain ⟨a, ha⟩ := takes_include lead i us
    have hread := ha.items_cons fails_stop hus
    refine ⟨.node .include none a :: c, ?_, hread⟩
    rw [visitAll_cons, visit_include, hc]
    rfl
  cases is with
  | nil => exact ⟨[], rfl, h⟩
  | cons i is =>
    obtain ⟨c, hc, hread⟩ : ∃ c, (Tree.visitAll ⟨[], []⟩ .translationUnit c).classes = [] ∧
        Takes grammar (.items (.rule .item) (.alts []))
          (is.flatMap (fun i => includeTokens ['\n'] i.system i.name.toList) ++ ts)
          (c ++ b) [] := by
      induction is with
      | nil => exact ⟨[], rfl, h⟩
      | cons i is ih =>
        obtain ⟨c, hc, hread⟩ := ih
        rw [List.flatMap_cons, List.append_assoc]
        exact hone _ i hc hread
    rw [directiveTokens, List.append_assoc]
    exact hone _ i hc hread

/-! ## 4. What is described -/

/-- **What is described of the header of an interface** are its classes with the bounds of their
parameters turned. -/
theorem describe_text (name : String) (h : Header) (hname : OneLine h.name.toList)
    (his : Included h.includes) (hCs : ∀ C ∈ Cs, C.Valid)
    (hclasses : h.topLevel.map ClassDecl.interface = Cs.map ClassText.decl) :
    (describe name (Artifact.InterfaceHeader.text h)).classes = Cs.map (·.turned.decl) := by
  obtain ⟨b, hb, hclassesRead⟩ := takes_classes hCs []
  obtain ⟨a, ha, hread⟩ := takes_directives h.includes hclassesRead
  have hpragma : (Look.directive "pragma").Fits (pragmaToken ['\n', '\n']) := rfl
  have hfirst : Takes grammar (.rule .item)
      (pragmaToken ['\n', '\n'] :: (directiveTokens h.includes ++ Cs.flatMap ClassText.tokens))
      [(pragmaToken ['\n', '\n']).leaf .directiveLine] _ :=
    takes_alternative 2 rfl rfl (sees_one hpragma) (by decide) (takes_look rfl hpragma (by decide))
  have hitems := hfirst.items_cons fails_stop hread
  have hsplit : splitComments (headerTokens h.name h.includes Cs) =
      ([(bannerToken h.name).leaf .comment], pragmaToken ['\n', '\n'] ::
        (directiveTokens h.includes ++ Cs.flatMap ClassText.tokens)) := rfl
  obtain ⟨k, hstart⟩ : Takes grammar start (headerTokens h.name h.includes Cs)
      ([(bannerToken h.name).leaf .comment] ++ [.node .translationUnit none _]) [] :=
    .node hsplit hitems
  rw [← tokens_text h hname his hCs hclasses] at hstart
  have hparse := parse_eq hstart
  rw [List.getLast?_concat, Option.getD_some] at hparse
  have hvisit : (describe name (Artifact.InterfaceHeader.text h)).classes = (Tree.visitAll ⟨[], []⟩
      .translationUnit ([(pragmaToken ['\n', '\n']).leaf .directiveLine] ++ (a ++ b))).classes := by
    rw [describe, hparse]
    exact congrArg Tree.Findings.classes (visit_other nofun nofun nofun nofun)
  have hpragmaLeaf : (Tree.visitAll ⟨[], []⟩ .translationUnit
      [(pragmaToken ['\n', '\n']).leaf .directiveLine]).classes = [] := rfl
  rw [hvisit, visitAll_append, visitAll_append, hpragmaLeaf, ha, hb]
  rfl

/-! ## 5. The same interface -/

variable {p : ParameterText} {M : MethodText}

/-- A parameter is described the same exactly if its bounds read the same from either end. -/
theorem turned_parameter_iff (hp : p.Valid) :
    p.turned.parameter = p.parameter ↔ p.type.layers.Symmetric := by
  rw [← TypeText.turned_text_iff hp.type]
  simp [ParameterText.parameter, ParameterText.turned, String.ofList_inj]

theorem isVoid_turned (hp : p.Valid) (h : p.parameter.isVoid = false) :
    p.turned.parameter.isVoid = false := by
  rcases p.type.layers.turned.turned_or with hsame | hbound
  · -- nothing is turned
    rw [Layers.turned_turned] at hsame
    have hparameter : p.turned.parameter = p.parameter := by
      rw [ParameterText.parameter, ParameterText.parameter, ParameterText.turned, TypeText.turned,
        ← hsame]
    rwa [hparameter]
  · have htext : '[' ∈ p.turned.type.text := by
      rw [ParameterText.turned, TypeText.text_eq hp.type.turned]
      exact List.mem_append_right _ hbound
    have hne : (p.turned.parameter.type == "void") = false := by
      refine beq_eq_false_iff_ne.mpr fun hvoid => ?_
      have hchars : p.turned.type.text = "void".toList := by
        rw [← hvoid]
        exact String.toList_ofList.symm
      rw [hchars] at htext
      exact absurd htext (by decide)
    rw [Parameter.isVoid, hne, Bool.false_and]

/-- A method whose bounds are turned has no lone `void` either. -/
theorem effective_turned (hM : M.Valid) :
    M.turned.method.effective = M.turned.method.parameters := by
  have hparameters : M.method.parameters = M.parameters.map ParameterText.parameter := rfl
  have hturned : M.turned.method.parameters = M.parameters.map (·.turned.parameter) := List.map_map
  have heffective := hM.effective
  have hvalid := hM.parameters
  rw [Method.effective, hparameters] at heffective
  rw [Method.effective, hturned]
  match hps : M.parameters with
  | [] => rfl
  | [p] =>
    rw [hps] at heffective hvalid
    have hvoid : p.parameter.isVoid = false := by simpa using heffective
    simp [isVoid_turned (hvalid p (List.mem_singleton_self p)) hvoid]
  | p :: q :: ps => rfl

theorem turned_method_iff (hM : M.Valid) :
    M.turned.method = M.method ↔ ∀ p ∈ M.parameters, p.type.layers.Symmetric := by
  have hparameters : M.turned.method = M.method ↔
      M.parameters.map (·.turned.parameter) = M.parameters.map ParameterText.parameter := by
    rw [MethodText.method, MethodText.method, MethodText.turned, List.map_map]
    simp [Method.describe, Function.comp_def]
  rw [hparameters, List.map_inj_left]
  exact forall₂_congr fun p hp => turned_parameter_iff (hM.parameters p hp)

theorem turned_decl_iff (hC : C.Valid) : C.turned.decl = C.decl ↔
    ∀ M ∈ C.methods, ∀ p ∈ M.parameters, p.type.layers.Symmetric := by
  rw [decl_turned, ClassText.decl, ClassDecl.mk.injEq]
  simp only [true_and]
  rw [List.map_inj_left]
  exact forall₂_congr fun M hM => turned_method_iff (hC.methods M hM)

/-- The classes that are read again have no lone `void` among their parameters. -/
theorem interface_turned (hC : C.Valid) : C.turned.decl.interface = C.turned.decl := by
  have hmethods : C.turned.decl.methods.map Method.interface = C.turned.decl.methods := by
    refine (List.map_congr_left fun m hm => ?_).trans (List.map_id _)
    rw [decl_turned] at hm
    obtain ⟨M, hM, rfl⟩ := List.mem_map.mp hm
    rw [Method.interface, effective_turned (hC.methods M hM)]
    rfl
  rw [ClassDecl.interface, hmethods]

/-- Without arrays among their parameters the classes that are read again are the same. -/
theorem describe_text_of_boundless (name : String) (h : Header) (hname : OneLine h.name.toList)
    (his : Included h.includes) (hCs : ∀ C ∈ Cs, C.Valid)
    (hclasses : h.topLevel.map ClassDecl.interface = Cs.map ClassText.decl)
    (hbounds : ∀ C ∈ Cs, ∀ M ∈ C.methods, ∀ p ∈ M.parameters, p.type.layers.Boundless) :
    (describe name (Artifact.InterfaceHeader.text h)).classes =
      h.topLevel.map ClassDecl.interface := by
  rw [describe_text name h hname his hCs hclasses, hclasses]
  refine List.map_congr_left fun C hC => (turned_decl_iff (hCs C hC)).mpr fun M hM p hp => ?_
  exact Layers.symmetric_of_boundless (hbounds C hC M hM p hp)

/-- **The header of an interface describes the interface that it is made from exactly if all bounds
of arrays among its parameters read the same from either end.** -/
theorem interface_again_iff (name text : String) (Cs : List ClassText)
    (hname : OneLine name.toList) (his : Included (describe name text).includes)
    (hCs : ∀ C ∈ Cs, C.Valid)
    (hclasses : (describe name text).topLevel.map ClassDecl.interface = Cs.map ClassText.decl) :
    (describe name (Artifact.InterfaceHeader.text (describe name text))).classes.map
        ClassDecl.interface = (describe name text).topLevel.map ClassDecl.interface ↔
      ∀ C ∈ Cs, ∀ M ∈ C.methods, ∀ p ∈ M.parameters, p.type.layers.Symmetric := by
  rw [describe_text name _ hname his hCs hclasses, hclasses, List.map_map, List.map_inj_left]
  refine forall₂_congr fun C hC => ?_
  rw [Function.comp_apply, interface_turned (hCs C hC)]
  exact turned_decl_iff (hCs C hC)

/-- A class with a method that takes a table of two rows. -/
def tableText : String := "class Foo \x7b public: void fill(int[2][3]); \x7d;\n"

/-- What is described of this text: a table of three rows. -/
def tableHeader : Header :=
  ⟨"foo.h", [], [⟨"Foo", "MockFoo", [], [], [⟨"fill", "void", [], [⟨"", "int[3][2]"⟩]⟩]⟩], []⟩

/-- The type of this table. -/
def tableType : TypeText := ⟨[], [wordToken [' '] "int".toList], .bounds ['3'] [['2']]⟩

/-- The class, as it is declared by the header of an interface. -/
def tableClass : ClassText :=
  ⟨[], "Foo".toList, [⟨false, ⟨[], [wordToken [' '] "void".toList], .nil⟩, "fill".toList,
    [⟨tableType, []⟩], false⟩]⟩

theorem valid_tableClass : tableClass.Valid := by
  have hword {w : List Char} (hw : String.ofList w ∈ primitiveWords) (hword : Text.isWord w = true)
      {L : Layers} (hL : L.Valid) (htidy : L.Tidy) :
      (⟨[], [wordToken [' '] w], L⟩ : TypeText).Valid :=
    ⟨List.forall_mem_nil _, .primitive hw, .word (by decide) hword nofun .nil,
      List.forall_mem_singleton.mpr (.inr rfl), hL, htidy⟩
  refine ⟨List.forall_mem_nil _, by decide,
    List.forall_mem_singleton.mpr ⟨?_, trivial, by decide, ?_, ?_⟩⟩
  · exact hword (by decide) (by decide) trivial trivial
  · have hbounds : ∀ x ∈ [['3'], ['2']], Bound x := by decide
    exact List.forall_mem_singleton.mpr ⟨hword (by decide) (by decide) trivial hbounds, .inl rfl⟩
  · decide

/-- **A table changes its rows and columns, and again when it is written out.** -/
theorem table_turned :
    (parse tableText.toList).hasError = false ∧ describe "foo.h" tableText = tableHeader ∧
    (describe "foo.h" (Artifact.InterfaceHeader.text (describe "foo.h" tableText))).classes.map
      ClassDecl.interface ≠ (describe "foo.h" tableText).topLevel.map ClassDecl.interface := by
  have hdescribe : describe "foo.h" tableText = tableHeader := by decide +kernel
  have hname : OneLine "foo.h".toList := List.forall_iff_forall_mem.mp (by decide)
  have hincludes : Included (describe "foo.h" tableText).includes := by
    rw [hdescribe]
    exact List.forall_mem_nil _
  have hclasses : (describe "foo.h" tableText).topLevel.map ClassDecl.interface =
      [tableClass].map ClassText.decl := by
    rw [hdescribe]
    decide
  refine ⟨by decide +kernel, hdescribe, fun hsame => ?_⟩
  have hsymmetric := (interface_again_iff "foo.h" tableText [tableClass] hname hincludes
    (List.forall_mem_singleton.mpr valid_tableClass) hclasses).mp hsame tableClass
    List.mem_cons_self _ List.mem_cons_self ⟨tableType, []⟩ List.mem_cons_self
  exact absurd hsymmetric (by decide : ¬ [['3'], ['2']].reverse = [['3'], ['2']])

end Scaffold.Cpp
