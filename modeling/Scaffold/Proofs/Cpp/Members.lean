import Scaffold.Proofs.Cpp.MethodTexts

/-!
# Members as they are declared

A class in the header of an interface has its methods as members, and in front of them its
destructor if one of them is virtual.

* `method?_methodTree` -- **what is described of a method** is the method with the bounds of
  its parameters turned;
* `takes_method`, `takes_destructor` -- a method is read and described, and a destructor is read
  and describes no method;
* `takes_members` -- the members of a class are read one by one.
-/
namespace Scaffold.Method

/-- What the callers of a method see: a lone `void` stands for no parameters. -/
def interface (m : Method) : Method := { m with parameters := m.effective }

end Scaffold.Method

namespace Scaffold.Cpp

open Grammar
open Pattern

variable {ts us rest : List Token} {t u : Token} {a b : List Tree} {lead w : List Char} {k : Kind}
  {M : MethodText}

/-! ## 1. What is described of a method -/

/-- What stands in front of the type of a method. -/
structure MethodText.Front (M : MethodText) (front : List Tree) : Prop where
  quiet : ∀ t ∈ front, t.Quiet
  role : ∀ t ∈ front, t.role = none
  noSpecifier : ∀ t ∈ front, t.kind ≠ .virtualSpecifier
  isVirtual : front.any (·.kind == .virtual) = M.isVirtual
  qualifiers : (front.filter (·.kind == .typeQualifier)).map Tree.text = M.returns.qualifiers

theorem MethodText.Parts.front_trees (Q : M.Parts ts) :
    M.Front (Q.front.map (Token.leaf .virtual) ++
      Q.type.qualifiers.map (Token.leaf .typeQualifier)) where
  quiet := by
    refine List.forall_mem_append.mpr ⟨fun t ht => ?_, fun t ht => ?_⟩
    all_goals
      obtain ⟨u, -, rfl⟩ := List.mem_map.mp ht
      exact .leaf
  role := by
    refine List.forall_mem_append.mpr ⟨fun t ht => ?_, fun t ht => ?_⟩
    all_goals
      obtain ⟨u, -, rfl⟩ := List.mem_map.mp ht
      rfl
  noSpecifier := by
    refine List.forall_mem_append.mpr ⟨fun t ht => ?_, fun t ht => ?_⟩
    all_goals
      obtain ⟨u, -, rfl⟩ := List.mem_map.mp ht
      rw [Token.kind_leaf]
      decide
  isVirtual := by
    obtain ⟨lead, hfront⟩ := Q.virtual
    have hnone : (Q.type.qualifiers.map (Token.leaf .typeQualifier)).any (·.kind == .virtual) =
        false := by
      refine List.any_eq_false.mpr fun t ht => ?_
      obtain ⟨u, -, rfl⟩ := List.mem_map.mp ht
      rw [Token.kind_leaf]
      decide
    rw [List.any_append, hnone, Bool.or_false, hfront, MethodText.virtualTokens]
    cases M.isVirtual <;> rfl
  qualifiers := by
    have hvirtual : (Q.front.map (Token.leaf .virtual)).filter (·.kind == .typeQualifier) = [] := by
      refine List.filter_eq_nil_iff.mpr fun t ht => ?_
      obtain ⟨u, -, rfl⟩ := List.mem_map.mp ht
      rw [Token.kind_leaf]
      decide
    have hall : (Q.type.qualifiers.map (Token.leaf .typeQualifier)).filter
        (·.kind == .typeQualifier) = Q.type.qualifiers.map (Token.leaf .typeQualifier) := by
      refine List.filter_eq_self.mpr fun t ht => ?_
      obtain ⟨u, -, rfl⟩ := List.mem_map.mp ht
      rfl
    rw [List.filter_append, hvirtual, List.nil_append, hall, List.map_map, ← Q.type.texts]
    rfl

variable {front : List Tree} {x y : Tree}

/-- Whether there is a child of a kind. -/
theorem isSome_childOf? (t : Tree) (k : Kind) :
    (t.childOf? k).isSome = t.children.any (·.kind == k) := by
  rw [Tree.childOf?, List.isSome_find?]

theorem any_kind_eq_false {k : Kind} (h : ∀ t ∈ a, t.kind ≠ k) : a.any (·.kind == k) = false :=
  List.any_eq_false.mpr fun t ht => by simpa using h t ht

/-- The function of a method has no further specifiers, and returns nothing behind its
parameters. -/
theorem childOf?_functionTree (hx : x.kind = .parameterList) (r : Option Role) {k : Kind}
    (hk : k ∉ [.fieldIdentifier, .parameterList, .typeQualifier]) :
    ((functionTree M x).inRole r).childOf? k = none := by
  simp only [List.mem_cons, List.not_mem_nil, or_false, not_or, ← ne_eq] at hk
  obtain ⟨hname, hparameters, hqualifier⟩ := hk
  have hlist : (x.withRole .parameters).kind = .parameterList := by rw [Tree.kind_withRole, hx]
  refine List.find?_eq_none.mpr (List.forall_mem_cons.mpr ⟨fun h => hname (eq_of_beq h).symm,
    List.forall_mem_cons.mpr ⟨by simpa [hlist] using Ne.symm hparameters, fun t ht => ?_⟩⟩)
  obtain ⟨u, -, rfl⟩ := List.mem_map.mp ht
  exact fun h => hqualifier (eq_of_beq h).symm

/-- **The specifiers that are described of a method** are the ones that it is declared with. -/
theorem specified_methodTree (hfront : M.Front front) (hy : y.kind.isTypal = true)
    (hx : x.kind = .parameterList) (r : Option Role) :
    (methodTree M front y x).specified ((functionTree M x).inRole r) =
      (if M.isVirtual then [.override] else []) ++ if M.isConst then [.const] else [] := by
  have hne {k : Kind} (hk : k.isTypal = false) : (y.withRole .type).kind ≠ k := by
    rw [Tree.kind_withRole]
    rintro rfl
    rw [hk] at hy
    cases hy
  have hspecifier : ((methodTree M front y x).childOf? .virtualSpecifier).isSome = false := by
    rw [isSome_childOf?]
    exact any_kind_eq_false (List.forall_mem_append.mpr ⟨hfront.noSpecifier,
      List.forall_mem_cons.mpr ⟨hne rfl, forall_declarationTrees
        (kind_declarator (· ≠ .virtualSpecifier) M x nofun nofun nofun) (fun t => nofun) nofun⟩⟩)
  have hvirtual : ((methodTree M front y x).childOf? .virtual).isSome = M.isVirtual := by
    have hbehind : ∀ t ∈ y.withRole .type :: declarationTrees M x, t.kind ≠ .virtual :=
      List.forall_mem_cons.mpr ⟨hne rfl, forall_declarationTrees
        (kind_declarator (· ≠ .virtual) M x nofun nofun nofun) (fun t => nofun) nofun⟩
    rw [isSome_childOf?, methodTree, Tree.children, List.any_append, hfront.isVirtual,
      any_kind_eq_false hbehind, Bool.or_false]
  have hconst : (((functionTree M x).inRole r).namedChildren.any fun c =>
      c.kind == .typeQualifier && c.text == "const".toList) = M.isConst := by
    have hkind : (x.withRole .parameters).kind = .parameterList := by rw [Tree.kind_withRole, hx]
    have hname : (Tree.leaf .fieldIdentifier (some .declarator) [' '] M.name).kind =
        .fieldIdentifier := rfl
    rw [Tree.namedChildren, List.any_filter, functionTree, Tree.inRole, Tree.children,
      MethodText.constTokens]
    cases M.isConst <;> simp [hkind, hname, Tree.isNamed]
  rw [Tree.specified, hvirtual, hspecifier, childOf?_functionTree hx r (by decide), hconst]
  simp

/-- **What is described of a method** is the method with the bounds of its parameters turned. -/
theorem method?_methodTree (h : M.Valid) (hfront : M.Front front) (hy : y.kind.isTypal = true)
    (htext : y.text = spelled (relead [] M.returns.base)) (hx : x.kind = .parameterList)
    (hlist : x.parameterList = M.parameters.map (·.turned.parameter)) :
    (methodTree M front y x).method? = some M.turned.method := by
  obtain ⟨r, hpeel⟩ := Layers.peel_around h.boundless (d := functionTree M x) rfl rfl nofun
    .declarator
  have htype : (methodTree M front y x).child? .type = some (y.withRole .type) :=
    child?_type .fieldDeclaration hfront.role y (declarationTrees M x)
  have hdeclarator : (methodTree M front y x).child? .declarator =
      some ((M.returns.layers.around (functionTree M x)).withRole .declarator) := by
    refine (child?_behind .fieldDeclaration hfront.role y (declarationTrees M x)
      (by decide : Role.declarator ≠ .type)).trans (List.find?_cons_of_pos ?_)
    rw [Tree.role_withRole]
    rfl
  have hparts : ∃ P : (methodTree M front y x).MethodParts, P.type = y.withRole .type ∧
      P.function = (functionTree M x).inRole r ∧ P.name.text = M.name ∧
      P.declarator.peel.suffix = M.returns.layers.suffix :=
    ⟨⟨_, _, _, _, htype, hdeclarator, congrArg Peeled.inner hpeel, rfl, rfl, .inl rfl⟩,
     rfl, rfl, rfl,
      congrArg Peeled.suffix hpeel⟩
  obtain ⟨P, hPtype, hPfunction, hPname, hPsuffix⟩ := hparts
  have hqualifiers : ((methodTree M front y x).namedChildren.filter
      (·.kind == .typeQualifier)).map Tree.text = M.returns.qualifiers := by
    rw [methodTree, qualifiers_eq .fieldDeclaration front hy, hfront.qualifiers]
    exact forall_declarationTrees (kind_declarator (· ≠ .typeQualifier) M x nofun nofun nofun)
      (fun t => nofun) nofun
  have hreturned : (methodTree M front y x).returned P.type P.declarator.peel.suffix P.function =
      M.returns.text := by
    rw [hPtype, hPsuffix, hPfunction, Tree.returned, childOf?_functionTree hx r (by decide)]
    change Tree.spellType _ _ _ = _
    rw [TypeText.spellType_eq h.returns hqualifiers (by rw [Tree.text_withRole, htext]),
      TypeText.turned, Layers.turned_of_boundless h.boundless]
  have hparameters : ((P.function.child? .parameters).map Tree.parameterList).getD [] =
      M.parameters.map (·.turned.parameter) := by
    have hfind : P.function.child? .parameters = some (x.withRole .parameters) := by
      rw [hPfunction, Tree.child?, functionTree, Tree.inRole, Tree.children,
        List.find?_cons_of_neg (by exact nofun), List.find?_cons_of_pos (by simp)]
    have hsame : (x.withRole .parameters).parameterList = x.parameterList := by cases x <;> rfl
    rw [hfind, Option.map_some, hsame, hlist, Option.getD_some]
  rw [P.method?_eq, Tree.MethodParts.method, hparameters, hreturned, hPname, hPfunction,
    specified_methodTree hfront hy hx, MethodText.method, MethodText.turned, List.map_map]
  rfl

/-! ## 2. Methods and destructors -/

/-- **A method is read, and described with the bounds of its parameters turned.** -/
theorem takes_method (h : M.Valid) (lead : List Char) (rest : List Token) :
    ∃ x : Tree, x.Quiet ∧ x.kind = .fieldDeclaration ∧ x.method? = some M.turned.method ∧
      Takes grammar (.rule .member) (M.tokens lead ++ rest) [x] rest := by
  obtain ⟨Q⟩ := h.parts lead
  obtain ⟨x, hquiet, hkind, hlist, hfunction⟩ := takes_function h rest
  obtain ⟨y, hspell, htypal, hread⟩ := Q.type.isBase.read
  have htext : y.text = spelled (relead [] M.returns.base) := by
    rw [← Q.type.text, ← hspell.text]
    simp [Tree.texts, Tree.spellings]
  have hfront := Q.front_trees
  refine ⟨_, ?_, rfl, method?_methodTree h hfront htypal htext hkind hlist,
    takes_member h Q hfunction (hread _ (h.ahead rest)) htypal⟩
  have htree : (functionTree M x).Quiet := by
    refine .node rfl (List.forall_mem_cons.mpr ⟨.leaf,
      List.forall_mem_cons.mpr ⟨hquiet.withRole .parameters, fun t ht => ?_⟩⟩)
    obtain ⟨u, -, rfl⟩ := List.mem_map.mp ht
    exact .leaf
  refine .node rfl (List.forall_mem_append.mpr ⟨hfront.quiet, List.forall_mem_cons.mpr
    ⟨(hspell.quiet y (List.mem_singleton_self y)).withRole .type, forall_declarationTrees
      ((M.returns.layers.quiet_around htree).withRole .declarator) (fun t => .leaf)
      (.node rfl (List.forall_mem_singleton.mpr .leaf))⟩⟩)

/-- The name of a destructor. -/
def tildeTokens (w : List Char) : List Token := [markToken [' '] '~', wordToken [] w]

/-- What makes it a default one. -/
def defaultTokens : List Token :=
  [markToken [' '] '=', wordToken [' '] "default".toList, markToken [] ';']

/-- The declaration of a virtual destructor. -/
def destructorTokens (lead w : List Char) : List Token :=
  wordToken lead "virtual".toList ::
    (tildeTokens w ++ markToken [] '(' :: markToken [] ')' :: defaultTokens)

/-- The name of a destructor is read. -/
theorem takes_tilde (hw : IsName w) (rest : List Token) :
    Takes grammar (.rule (.plainDeclarator .identifier)) (tildeTokens w ++ rest)
      [.node .destructorName none
        [(markToken [' '] '~').leaf .token, (wordToken [] w).leaf .identifier]] rest := by
  have hname := hw.fits []
  refine .rule (.next ?_ (.next ?_ (.first (.shapeless_front rfl (.next ?_ (.first
    (.node_front rfl (.cons (takes_mark rfl) (takes_look rfl hname (by decide)).last)))) rfl))))
  all_goals exact fails_of_glance sees_mark (by decide)

/-- What is in place of a body is read. -/
theorem takes_default (rest : List Token) :
    Takes grammar (.rule .methodClause) (defaultTokens ++ rest)
      [.node .methodClause none (defaultTokens.map (Token.leaf .token))] rest := by
  have hequals : (Look.mark '=').Fits (markToken [' '] '=') := ⟨rfl, rfl⟩
  have hdefault : (Look.word ["default"]).Fits (wordToken [' '] "default".toList) :=
    ⟨rfl, by simp⟩
  have hone : Takes grammar equals (defaultTokens ++ rest)
      [(markToken [' '] '=').leaf .token]
      (wordToken [' '] "default".toList :: markToken [] ';' :: rest) :=
    .skip (.without (fails_of_glance (sees_cons hequals (sees_one hdefault)) (by decide)))
      (takes_mark rfl).last
  exact .rule (.node_front rfl (.cons hone (.cons (.first (takes_look rfl hdefault (by decide)))
    (takes_mark rfl).last)))

/-- **A destructor is read, and describes no method.** -/
theorem takes_destructor (hw : IsName w) (lead : List Char) (rest : List Token) :
    ∃ x : Tree, x.Quiet ∧ x.kind = .functionDefinition ∧ x.method? = none ∧
      Takes grammar (.rule .member) (destructorTokens lead w ++ rest) [x] rest := by
  have hvirtual : (Look.word ["virtual"]).Fits (wordToken lead "virtual".toList) := ⟨rfl, by simp⟩
  obtain ⟨x, hquiet, -, -, hparameters⟩ := takes_parameters (List.forall_mem_nil _)
    (defaultTokens ++ rest)
  have htail : Takes grammar (.rule .functionTail)
      (markToken [] '(' :: markToken [] ')' :: (defaultTokens ++ rest)) [x.withRole .parameters]
      (defaultTokens ++ rest) := by
    refine .rule (.cons hparameters.role (.skip (.star_nil ?_) (takes_functionEnd ?_)))
    · exact fails_of_glance sees_mark (by decide)
    · exact ahead_mark (by simp)
  have hmodifiers : Takes grammar (.star explicitModifier)
      (destructorTokens lead w ++ rest) [(wordToken lead "virtual".toList).leaf .virtual]
      (tildeTokens w ++ markToken [] '(' :: markToken [] ')' :: (defaultTokens ++ rest)) := by
    have hfirst : Takes grammar explicitModifier (destructorTokens lead w ++ rest)
        [(wordToken lead "virtual".toList).leaf .virtual]
        (tildeTokens w ++ markToken [] '(' :: markToken [] ')' :: (defaultTokens ++ rest)) := by
      refine .next (fails_of_glance (sees_one hvirtual) (by decide)) (.first ?_)
      exact takes_alternative 2 rfl rfl (sees_one hvirtual) (by decide)
        (takes_look rfl hvirtual (by decide))
    exact hfirst.star_cons (.star_nil (fails_of_glance sees_mark (by decide)))
  have hfunction := (takes_tilde hw (markToken [] '(' :: markToken [] ')' ::
    (defaultTokens ++ rest))).role (r := .declarator) |>.cons htail.last
  have hhead : Takes grammar (.rule .constructorHead) (destructorTokens lead w ++ rest) _
      (defaultTokens ++ rest) :=
    .rule (.cons hmodifiers (.last (.role (.node_front rfl
      (.skip (.without (fails_of_glance sees_mark (by decide))) hfunction)))))
  have hend : Takes grammar (.seq [.alts [.mark ";", .rule .methodClause, .rule .functionBody]])
      (defaultTokens ++ rest) [.node .methodClause none (defaultTokens.map (Token.leaf .token))]
      rest :=
    .last (.next (fails_of_glance sees_mark (by decide)) (.first (takes_default rest)))
  refine ⟨_, ?_, rfl, rfl, takes_alternative 10 rfl rfl (sees_one hvirtual) (by decide)
    (.shaped_front (splitComments_of_ne hvirtual.ne_comment) (hhead.append hend) rfl)⟩
  have hname : (Tree.node .destructorName (some .declarator) [(markToken [' '] '~').leaf .token,
      (wordToken [] w).leaf .identifier]).Quiet :=
    .node rfl (List.forall_mem_cons.mpr ⟨.leaf, List.forall_mem_singleton.mpr .leaf⟩)
  have hleaves : ∀ t ∈ defaultTokens.map (Token.leaf .token), t.Quiet := by
    intro t ht
    obtain ⟨u, -, rfl⟩ := List.mem_map.mp ht
    exact .leaf
  exact .node rfl (List.forall_mem_cons.mpr ⟨.leaf, List.forall_mem_cons.mpr
    ⟨.node rfl (List.forall_mem_cons.mpr ⟨hname,
      List.forall_mem_singleton.mpr (hquiet.withRole .parameters)⟩),
      List.forall_mem_singleton.mpr (.node rfl hleaves)⟩⟩)

/-! ## 3. Lists of members -/

/-- The trees of public members describe the methods, and the walk finds nothing in them. -/
structure Tells (ms : List Method) (a : List Tree) : Prop where
  quiet : ∀ t ∈ a, t.Quiet
  methods : Tree.methodsFrom .public (a.filter Tree.isNamed) = ms

variable {ms : List Method} {m : Method} {Ms : List MethodText}

theorem Tells.method {x : Tree} (hquiet : x.Quiet) (hkind : x.kind = .fieldDeclaration)
    (hx : x.method? = some m) (h : Tells ms a) : Tells (m :: ms) (x :: a) where
  quiet := List.forall_mem_cons.mpr ⟨hquiet, h.quiet⟩
  methods := by
    have hnamed : x.isNamed = true := by rw [Tree.isNamed, hkind]; rfl
    rw [List.filter_cons_of_pos hnamed, Tree.methodsFrom, h.methods, hx, Tree.declares, hkind]
    rfl

/-- A definition that is no method. -/
theorem Tells.other {x : Tree} (hquiet : x.Quiet) (hkind : x.kind = .functionDefinition)
    (hx : x.method? = none) (h : Tells ms a) : Tells ms (x :: a) where
  quiet := List.forall_mem_cons.mpr ⟨hquiet, h.quiet⟩
  methods := by
    have hnamed : x.isNamed = true := by rw [Tree.isNamed, hkind]; rfl
    rw [List.filter_cons_of_pos hnamed, Tree.methodsFrom, h.methods, hx, Tree.declares, hkind]
    rfl

/-- In front of a member. -/
def memberLead : List Char := "\n    ".toList

/-- The methods of a class. -/
def methodTokens (Ms : List MethodText) : List Token := Ms.flatMap (·.tokens memberLead)

/-- The members of a class: a destructor if one of its methods is virtual, and the methods. -/
def memberTokens (w : List Char) (Ms : List MethodText) : List Token :=
  (if Ms.any (·.isVirtual) then destructorTokens memberLead w else []) ++ methodTokens Ms

/-- The closing brace of a block ends its items. -/
theorem takes_closing (lead : List Char) (rest : List Token) {x : Rule} :
    Takes grammar (.items (.rule x) closing) (markToken lead '}' :: rest) []
      (markToken lead '}' :: rest) :=
  .items_stop (.first (takes_mark rfl))

/-- **Methods are read one by one**, up to the brace that closes the class. -/
theorem takes_methods (hMs : ∀ M ∈ Ms, M.Valid) (lead : List Char) (rest : List Token) :
    ∃ a, Tells (Ms.map (·.turned.method)) a ∧ Takes grammar (.items (.rule .member) closing)
      (methodTokens Ms ++ markToken lead '}' :: rest) a (markToken lead '}' :: rest) := by
  induction Ms with
  | nil => exact ⟨[], ⟨List.forall_mem_nil _, rfl⟩, takes_closing lead rest⟩
  | cons M Ms ih =>
    obtain ⟨hM, hMs⟩ := List.forall_mem_cons.mp hMs
    obtain ⟨a, ha, hmore⟩ := ih hMs
    obtain ⟨Q⟩ := hM.parts memberLead
    obtain ⟨x, hquiet, hkind, hx, hread⟩ := takes_method hM memberLead
      (methodTokens Ms ++ markToken lead '}' :: rest)
    have hstop := fails_of_ahead (p := closing) (Q.begins
      (methodTokens Ms ++ markToken lead '}' :: rest)).ahead (by decide)
    refine ⟨x :: a, .method hquiet hkind hx ha, ?_⟩
    rw [methodTokens, List.flatMap_cons, List.append_assoc]
    exact .items_cons hstop hread hmore

/-- **The members of a class are read**, and its methods are described. -/
theorem takes_members (hw : IsName w) (hMs : ∀ M ∈ Ms, M.Valid) (lead : List Char)
    (rest : List Token) : ∃ a, Tells (Ms.map (·.turned.method)) a ∧
      Takes grammar (.items (.rule .member) closing)
        (memberTokens w Ms ++ markToken lead '}' :: rest) a (markToken lead '}' :: rest) := by
  obtain ⟨a, ha, hread⟩ := takes_methods hMs lead rest
  unfold memberTokens
  split
  · obtain ⟨x, hquiet, hkind, hx, hfirst⟩ := takes_destructor hw memberLead
      (methodTokens Ms ++ markToken lead '}' :: rest)
    have hvirtual : (Look.word ["virtual"]).Fits (wordToken memberLead "virtual".toList) :=
      ⟨rfl, by simp⟩
    have hstop : Fails grammar closing (destructorTokens memberLead w ++
        (methodTokens Ms ++ markToken lead '}' :: rest)) :=
      fails_of_glance (sees_one hvirtual) (by decide)
    refine ⟨x :: a, .other hquiet hkind hx ha, ?_⟩
    rw [List.append_assoc]
    exact .items_cons hstop hfirst hread
  · exact ⟨a, ha, hread⟩

/-! ## 4. Their text -/

/-- A method has the specifiers that it is declared with. -/
theorem specifiers_of_interface (hm : m.interface = M.method) :
    m.isVirtual = M.isVirtual ∧ m.isConst = M.isConst := by
  have hspecifiers : m.interface.specifiers = M.method.specifiers := by rw [hm]
  change m.specifiers = _ at hspecifiers
  rw [Method.isVirtual, Method.isConst, hspecifiers, MethodText.method]
  cases M.isVirtual <;> cases M.isConst <;> exact ⟨rfl, rfl⟩

/-- **A method is declared as it is described.** -/
theorem spelled_method (h : M.Valid) (hm : m.interface = M.method) (lead : List Char) :
    spelled (M.tokens lead) = lead ++ (Artifact.InterfaceHeader.declaration m ++ ";").toList := by
  have hname : m.name = String.ofList M.name := congrArg Method.name hm
  have hreturns : m.returnType = String.ofList M.returns.text := congrArg Method.returnType hm
  have hlist : m.typedList = String.ofList (spelled (parameterTokens M.parameters)) := by
    have hparameters : m.effective = M.parameters.map ParameterText.parameter :=
      congrArg Method.parameters hm
    rw [Method.typedList, hparameters, List.map_map, ← typedList_eq h.parameters]
    rfl
  obtain ⟨hvirtual, hconst⟩ := specifiers_of_interface hm
  rw [Artifact.InterfaceHeader.declaration, Artifact.constWord, hname, hreturns, hlist, hvirtual,
    hconst, MethodText.tokens, MethodText.nameTokens, MethodText.virtualTokens,
    MethodText.constTokens, MethodText.endTokens]
  cases M.isVirtual <;> cases M.isConst <;> simp [TypeText.spelled_tokens h.returns]

/-- None of the tokens of a method runs into the next. -/
theorem clear_method (h : M.Valid) (hlead : Gap lead) (hne : lead ≠ []) (hts : Clear ts) :
    Clear (M.tokens lead ++ ts) ∧ StandsOff (M.tokens lead ++ ts) := by
  have hspace : ([' '] : List Char) ≠ [] := List.cons_ne_nil ' ' []
  have hnone : Gap [] := List.forall_mem_nil _
  have hend : Clear (M.endTokens ++ ts) ∧ StandsOff (M.endTokens ++ ts) := by
    unfold MethodText.endTokens
    split
    · exact ⟨.mark (by decide) (by decide) (.number (by decide) (by decide) (by decide) (.mark rfl)
        (.mark (by decide) (by decide) hts)), .mark rfl⟩
    · exact ⟨.mark (by decide) (by decide) hts, .mark rfl⟩
  have hconst : Clear (M.constTokens ++ (M.endTokens ++ ts)) := by
    unfold MethodText.constTokens
    split
    · exact .word (by decide) (by decide) hend.2 hend.1
    · exact hend.1
  have hname : Clear (M.nameTokens ++ ts) := by
    have hclosed : Clear (markToken [] ')' :: _) := .mark hnone (by decide) hconst
    have hopened : Clear (markToken [] '(' :: _) :=
      .mark hnone (by decide) (clear_parameters h.parameters hclosed (.mark rfl))
    simpa [MethodText.nameTokens] using
      Clear.word (by decide : Gap [' ']) h.name.1 (.mark rfl) hopened
  have hreturns {l : List Char} (hl : Gap l) : Clear (M.returns.tokens l ++ (M.nameTokens ++ ts)) :=
    TypeText.clear_tokens h.returns hl hname (.lead hspace)
  rw [MethodText.tokens, List.append_assoc, List.append_assoc, MethodText.virtualTokens]
  cases M.isVirtual with
  | true =>
    have hbehind := hreturns (l := [' ']) (by decide)
    exact ⟨.word hlead (by decide) (TypeText.standsOff h.returns hspace _) hbehind, .lead hne⟩
  | false => exact ⟨hreturns hlead, TypeText.standsOff h.returns hne _⟩

theorem clear_methods (hMs : ∀ M ∈ Ms, M.Valid) : Clear (methodTokens Ms) := by
  induction Ms with
  | nil => exact .nil
  | cons M Ms ih =>
    obtain ⟨hM, hMs⟩ := List.forall_mem_cons.mp hMs
    exact (clear_method hM (by decide) (by decide) (ih hMs)).1

theorem clear_members (hw : IsName w) (hMs : ∀ M ∈ Ms, M.Valid) : Clear (memberTokens w Ms) := by
  have hmethods := clear_methods hMs
  unfold memberTokens
  split
  · exact .word (by decide) (by decide) (.mark rfl) (.mark (by decide) (by decide)
      (.word (by decide) hw.1 (.mark rfl) (.mark (by decide) (by decide)
        (.mark (by decide) (by decide)
        (.mark (by decide) (by decide) (.word (by decide) (by decide) (.mark rfl)
          (.mark (by decide) (by decide) hmethods)))))))
  · exact hmethods

end Scaffold.Cpp
