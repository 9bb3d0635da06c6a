import Scaffold.Artifact.InterfaceHeader
import Scaffold.Proofs.Cpp.Parameters

/-!
# Methods as they are declared

The header of an interface declares a method as `virtual T f(T1 x, T2) const = 0;`, without
the words that it does not need.

* `MethodText` -- a method that is declared like this;
* `fails_constructor`, `fails_conversion` -- the grammar reads it neither as a constructor nor
  as a conversion;
* `takes_function` -- it reads the name, the parameters and the qualifier as the declarator of
  a function;
* `takes_member` -- **it reads the method as a field**.
-/
namespace Scaffold.Cpp

open Grammar
open Pattern
open Text (isWord)

variable {ts us rest : List Token} {t u : Token} {a b : List Tree} {lead w : List Char} {k : Kind}

/-- A method as the header of an interface declares it. -/
structure MethodText where
  isVirtual : Bool
  returns : TypeText
  name : List Char
  parameters : List ParameterText
  isConst : Bool

namespace MethodText

/-- The word in front of a virtual method. -/
def virtualTokens (M : MethodText) (lead : List Char) : List Token :=
  if M.isVirtual then [wordToken lead "virtual".toList] else []

/-- The word behind the parameters of a method that changes nothing. -/
def constTokens (M : MethodText) : List Token :=
  if M.isConst then [wordToken [' '] "const".toList] else []

/-- What makes a method pure, up to the end of the declaration. -/
def endTokens (M : MethodText) : List Token :=
  (if M.isVirtual then [markToken [' '] '=', numberToken [' '] ['0']] else []) ++ [markToken [] ';']

/-- The tokens from the name on. -/
def nameTokens (M : MethodText) : List Token :=
  wordToken [' '] M.name :: markToken [] '(' ::
    (parameterTokens M.parameters ++ markToken [] ')' :: (M.constTokens ++ M.endTokens))

/-- The tokens, behind a blank space. -/
def tokens (M : MethodText) (lead : List Char) : List Token :=
  M.virtualTokens lead ++ (M.returns.tokens (if M.isVirtual then [' '] else lead) ++ M.nameTokens)

/-- The method with the bounds of its parameters turned. -/
def turned (M : MethodText) : MethodText :=
  { M with parameters := M.parameters.map ParameterText.turned }

/-- The method that is described. -/
def method (M : MethodText) : Method :=
  .describe (String.ofList M.name) (String.ofList M.returns.text)
    ((if M.isVirtual then [.override] else []) ++ if M.isConst then [.const] else [])
    (M.parameters.map ParameterText.parameter)

/-- It is declared as the header of an interface declares it. A function returns no array, and
a lone `void` is not written. -/
structure Valid (M : MethodText) : Prop where
  returns : M.returns.Valid
  boundless : M.returns.layers.Boundless
  name : IsName M.name
  parameters : ∀ p ∈ M.parameters, p.Valid
  effective : M.method.effective = M.method.parameters

end MethodText

variable {M : MethodText}

/-! ## 1. What is in front of a method -/

/-- The words in front of the type of a method. -/
def frontWords : List String := "virtual" :: describedQualifiers

/-- **The words in front of the type are read one by one**, by a pattern that takes modifiers. -/
theorem takes_front {p : P} (hp : ∀ t vs a rest, (Look.word frontWords).Fits t →
      Takes grammar (.rule .modifier) (t :: vs) a rest → Takes grammar p (t :: vs) a rest)
    {T : TypeText} (Q : T.Parts ts) (hstop : Fails grammar p us)
    (M : MethodText) (lead : List Char) :
    Takes grammar (.star p) (M.virtualTokens lead ++ (Q.qualifiers ++ us))
      ((M.virtualTokens lead).map (Token.leaf .virtual) ++
        Q.qualifiers.map (Token.leaf .typeQualifier)) us := by
  have hqualifiers : Takes grammar (.star p) (Q.qualifiers ++ us)
      (Q.qualifiers.map (Token.leaf .typeQualifier)) us := by
    refine .star_map (fun q hq vs => ?_) hstop
    obtain ⟨hsort, htext⟩ := Q.fits q hq
    have hlook := Q.fits q hq
    exact hp q vs _ vs ⟨hsort, List.mem_cons_of_mem _ htext⟩
      (takes_alternative 1 rfl rfl (sees_one hlook) (by decide)
        (.rule (.first (takes_look rfl hlook (by decide)))))
  unfold MethodText.virtualTokens
  split
  · have hword : (Look.word ["virtual"]).Fits (wordToken lead "virtual".toList) :=
      ⟨rfl, by simp⟩
    have hfirst := hp (wordToken lead "virtual".toList) (Q.qualifiers ++ us) _ _
      ⟨rfl, by simp [frontWords]⟩
      (takes_alternative 2 rfl rfl (sees_one hword) (by decide)
        (takes_look rfl hword (by decide)))
    exact hfirst.star_cons hqualifiers
  · exact hqualifiers

/-- What may stand in front of a constructor or a conversion. -/
def explicitModifier : P := .alts [.seq [.word "explicit", opt (.group '(' ')')], .rule .modifier]

/-- A method begins with the words in front of its type, and with the type. -/
structure MethodText.Parts (M : MethodText) (ts : List Token) where
  lead : List Char
  type : M.returns.Parts (M.returns.tokens lead)
  front : List Token
  tokens : ts = front ++ (type.qualifiers ++
    (type.base ++ (M.returns.layers.tokens ++ M.nameTokens)))
  virtual : ∃ lead, front = M.virtualTokens lead

theorem MethodText.Valid.parts (h : M.Valid) (lead : List Char) :
    Nonempty (M.Parts (M.tokens lead)) := by
  obtain ⟨P⟩ := h.returns.parts (if M.isVirtual then [' '] else lead)
  refine ⟨⟨_, P, M.virtualTokens lead, ?_, lead, rfl⟩⟩
  have hreturns := congrArg (M.virtualTokens lead ++ · ++ M.nameTokens) P.tokens
  simpa [MethodText.tokens] using hreturns

theorem MethodText.Parts.append (Q : M.Parts ts) (rest : List Token) :
    ts ++ rest = Q.front ++ Q.type.qualifiers ++
      (Q.type.base ++ (M.returns.layers.tokens ++ (M.nameTokens ++ rest))) :=
  (congrArg (· ++ rest) Q.tokens).trans (by simp)

/-- Behind the type of a method is its declarator. -/
theorem MethodText.Valid.ahead (h : M.Valid) (rest : List Token) :
    Ahead typeEnds (M.returns.layers.tokens ++ (M.nameTokens ++ rest)) := by
  have hname : Ahead [.name] (M.nameTokens ++ rest) :=
    ahead_cons (List.mem_singleton_self _) (h.name.fits [' '])
  exact (M.returns.layers.ahead_tokens hname).mono (by simp [Layers.begins, typeEnds])

/-- A method is not read as anything that begins with the words in front of its type and goes
on with something else. -/
theorem fails_behind_front (h : M.Valid) (Q : M.Parts ts) {ps : List P}
    (hps : ∀ us, IsPart .base us → ∀ rest, Ahead typeEnds rest →
      Fails grammar (.seq ps) (us ++ rest))
    (rest : List Token) :
    Fails grammar (.seq (.star explicitModifier :: ps)) (ts ++ rest) := by
  obtain ⟨lead, hfront⟩ := Q.virtual
  have hbase := Q.type.isBase.begins.append (M.returns.layers.tokens ++ (M.nameTokens ++ rest))
  have hmodifier := takes_front (p := explicitModifier) (fun t vs a rest ht hread =>
    .next (fails_of_glance (sees_one ht) (by decide)) (.first hread)) Q.type
    (fails_of_ahead hbase.ahead (by decide)) M lead
  have hall := Fails.behind hmodifier (hps _ Q.type.isBase _ (h.ahead rest))
  rw [Q.append, hfront]
  simpa using hall

/-- **A method is not read as a constructor.** -/
theorem fails_constructor (h : M.Valid) (Q : M.Parts ts) (rest : List Token) :
    Fails grammar (.rule .constructorHead) (ts ++ rest) := by
  refine .rule (fails_behind_front h Q (fun us hus rest hrest => .cons (.role (.node ?_))) rest)
  have hbegins := hus.begins.append rest
  rw [hbegins.uncommented]
  exact .behind (.without (fails_of_ahead hbegins.ahead (by decide))) (fails_declared hus hrest)

/-- **Nor is it read as a conversion.** -/
theorem fails_conversion (h : M.Valid) (Q : M.Parts ts) (rest : List Token)
    (hts : Uncommented (ts ++ rest)) : Fails grammar (.rule .conversion) (ts ++ rest) := by
  refine .rule (.shaped ?_)
  rw [hts]
  refine fails_behind_front h Q (fun us hus rest hrest => .cons (.role (.node ?_))) rest
  rw [(hus.begins.append rest).uncommented]
  exact fails_cast hus hrest _

/-! ## 2. The declarator of a method -/

/-- Behind a method is the end of its declaration. -/
theorem ahead_end (M : MethodText) (rest : List Token) :
    Ahead [.mark ';', .mark '='] (M.endTokens ++ rest) := by
  unfold MethodText.endTokens
  split
  · exact ahead_mark (by simp)
  · exact ahead_mark (by simp)

/-- What is behind the parameters of a function, but for qualifiers. -/
def functionEnd : P :=
  .seq
    [opt (.node .refQualifier (.alts [.mark "&&", .mark "&"])),
     opt (.node .exceptionSpecification (.alts
       [.seq [.word "noexcept", opt (parens (opt (.rule (.expression false))))],
        .seq [.word "throw",
          parens (commaList (.seq [.rule .typeDescriptor, opt (.mark "...")]))]])),
     .star (.rule .attribute),
     opt (.node .trailingReturnType (.seq [.mark "->", .rule .typeDescriptor])),
     .alts
       [plus (.oneOf .virtualSpecifier ["final", "override"]),
        .node .requiresClause (.seq [.word "requires", .rule .requirement]),
        .seq []]]

theorem takes_functionEnd (h : Ahead [.mark ';', .mark '='] rest) :
    Takes grammar functionEnd rest [] rest := by
  refine .skip (.next ?_ (.first .nil)) (.skip (.next ?_ (.first .nil))
    (.skip (.star_nil ?_) (.skip (.next ?_ (.first .nil))
      (.last (.next ?_ (.next ?_ (.first .nil)))))))
  all_goals exact fails_of_ahead h (by decide)

/-- A qualifier of a method. -/
def methodQualifier : P :=
  .alts [.rule .qualifier,
    .seq [.ahead (keyword ["__attribute__", "__attribute"]), .rule .attribute]]

theorem takes_const (M : MethodText) (rest : List Token) :
    Takes grammar (.star methodQualifier) (M.constTokens ++ (M.endTokens ++ rest))
      (M.constTokens.map (Token.leaf .typeQualifier)) (M.endTokens ++ rest) := by
  refine .star_map (fun t ht us => ?_) (fails_of_ahead (ahead_end M rest) (by decide))
  unfold MethodText.constTokens at ht
  split at ht
  · rw [List.mem_singleton.mp ht]
    have hword : (Look.word ["const"]).Fits (wordToken [' '] "const".toList) := ⟨rfl, by simp⟩
    exact .first (.rule (.first (takes_look rfl hword (by decide))))
  · cases ht

/-- The declarator of a method. -/
def functionTree (M : MethodText) (x : Tree) : Tree :=
  .node .functionDeclarator none
    ((.leaf .fieldIdentifier (some .declarator) [' '] M.name) :: x.withRole .parameters ::
      M.constTokens.map (Token.leaf .typeQualifier))

/-- **The declarator of a method is read**: its name, its parameters and its qualifier. -/
theorem takes_function (h : M.Valid) (rest : List Token) : ∃ x : Tree, x.Quiet ∧
    x.kind = .parameterList ∧
    x.parameterList = M.parameters.map (·.turned.parameter) ∧
    Takes grammar (.rule (.declarator .fieldIdentifier)) (M.nameTokens ++ rest)
      [functionTree M x] (M.endTokens ++ rest) := by
  obtain ⟨x, hquiet, hkind, hx, hread⟩ := takes_parameters h.parameters
    (M.constTokens ++ (M.endTokens ++ rest))
  refine ⟨x, hquiet, hkind, hx, ?_⟩
  have htokens : M.nameTokens ++ rest = wordToken [' '] M.name :: markToken [] '(' ::
      (parameterTokens M.parameters ++ markToken [] ')' ::
        (M.constTokens ++ (M.endTokens ++ rest))) := by
    simp [MethodText.nameTokens]
  have hname := h.name.fits [' ']
  have hend := ahead_end M rest
  have htail : Takes grammar (.rule .functionTail) (markToken [] '(' ::
      (parameterTokens M.parameters ++
        markToken [] ')' :: (M.constTokens ++ (M.endTokens ++ rest))))
      (x.withRole .parameters :: M.constTokens.map (Token.leaf .typeQualifier))
      (M.endTokens ++ rest) := by
    have hqualifiers := (takes_const M rest).append (takes_functionEnd hend)
    rw [List.append_nil] at hqualifiers
    exact .rule (.cons hread.role hqualifiers)
  have hparen (us : List Token) : Ahead nameStops (markToken [] '(' :: us) :=
    ahead_mark (by simp [nameStops])
  rw [htokens]
  refine .rule (.skip (.star_nil ?_) (.last (.next ?_ (.next ?_ (.first (.grow (.next ?_
    (.first (takes_plainName h.name [' '] (hparen _) (.inr rfl))))
    (grows_tail htail (grows_nil (fails_tails_of_ahead hend (by decide))))))))))
  all_goals exact fails_of_glance (sees_one hname) (by decide)

/-! ## 3. Methods -/

/-- The value that makes a method pure. -/
def pureTrees (M : MethodText) : List Tree :=
  if M.isVirtual then
    [(markToken [' '] '=').leaf .token,
     .node .expression (some .value) [(numberToken [' '] ['0']).leaf .numberLiteral]]
  else []

/-- The width of a bit field. -/
def memberWidth : P := .node .bitfieldClause (.seq [colon, .rule (.expression false)])

/-- The value of a member. -/
def memberValue : P :=
  opt (.role .value (.alts [.rule .initializerList, .seq [equals, .rule (.expression false)]]))

theorem takes_pure (M : MethodText) (rest : List Token) :
    Takes grammar memberValue (M.endTokens ++ rest) (pureTrees M) (markToken [] ';' :: rest) := by
  unfold MethodText.endTokens pureTrees
  split
  · have hzero : Look.number.Fits (numberToken [' '] ['0']) := rfl
    have hmark : (Look.mark '=').Fits (markToken [' '] '=') := ⟨rfl, rfl⟩
    have hone : Takes grammar equals
        (markToken [' '] '=' :: numberToken [' '] ['0'] :: markToken [] ';' :: rest)
        [(markToken [' '] '=').leaf .token]
        (numberToken [' '] ['0'] :: markToken [] ';' :: rest) :=
      .skip (.without (fails_of_glance (sees_cons hmark (sees_one hzero)) (by decide)))
        (takes_mark rfl).last
    have hend : Ahead (numberEnds false) (markToken [] ';' :: rest) :=
      ahead_mark (by simp [numberEnds])
    exact .first (.role (.next (fails_of_glance sees_mark (by decide))
      (.first (.cons hone (takes_number false [' '] ['0'] hend).last))))
  · exact .next (.role (fails_of_glance sees_mark (by decide))) (.first .nil)

/-- The declarator of a method with its value. -/
theorem takes_memberDeclarators (h : M.Valid) {x : Tree} (hread : Takes grammar
      (.rule (.declarator .fieldIdentifier)) (M.nameTokens ++ rest) [functionTree M x]
      (M.endTokens ++ rest)) :
    Takes grammar memberDeclarators (M.returns.layers.tokens ++ (M.nameTokens ++ rest))
      ((M.returns.layers.around (functionTree M x)).withRole .declarator :: pureTrees M)
      (markToken [] ';' :: rest) := by
  have hsees : Sees [.name] (M.nameTokens ++ rest) := sees_one (h.name.fits [' '])
  have haround := Layers.takes_around h.returns.layers h.boundless hsees hread
  have hwidth : Takes grammar (opt memberWidth) (M.endTokens ++ rest) [] (M.endTokens ++ rest) :=
    .next (fails_of_ahead (ahead_end M rest) (by decide)) (.first .nil)
  have hone := (haround.role (r := .declarator)).cons (.skip hwidth (takes_pure M rest).last)
  have hall : Takes grammar memberDeclarators _ (_ ++ []) (markToken [] ';' :: rest) :=
    .append hone.first (.last (.star_nil (fails_of_glance sees_mark (by decide))))
  rwa [List.append_nil] at hall

/-- The trees behind the type of a method. -/
def declarationTrees (M : MethodText) (x : Tree) : List Tree :=
  (M.returns.layers.around (functionTree M x)).withRole .declarator ::
    (pureTrees M ++ [(markToken [] ';').leaf .token])

/-- The tree of a method. -/
def methodTree (M : MethodText) (front : List Tree) (y x : Tree) : Tree :=
  .node .fieldDeclaration none (front ++ y.withRole .type :: declarationTrees M x)

theorem MethodText.Parts.begins (Q : M.Parts ts) (us : List Token) :
    Begins (.word frontWords :: baseStarts) (ts ++ us) := by
  obtain ⟨lead, hfront⟩ := Q.virtual
  have hwords : ∀ t ∈ Q.front ++ Q.type.qualifiers, (Look.word frontWords).Fits t := by
    refine List.forall_mem_append.mpr ⟨fun t ht => ?_, fun t ht => ?_⟩
    · rw [hfront, MethodText.virtualTokens] at ht
      split at ht
      · rw [List.mem_singleton.mp ht]
        exact ⟨rfl, by simp [frontWords]⟩
      · cases ht
    · obtain ⟨hsort, htext⟩ := Q.type.fits t ht
      exact ⟨hsort, List.mem_cons_of_mem _ htext⟩
  have hbase := Q.type.isBase.begins.append (M.returns.layers.tokens ++ M.nameTokens)
  rw [Q.tokens, ← List.append_assoc]
  exact (Layers.begins_qualifiers hwords hbase).append us

/-- What holds of the parts of a declaration holds of each of its trees. -/
theorem forall_declarationTrees {q : Tree → Prop} {x : Tree}
    (hdeclarator : q ((M.returns.layers.around (functionTree M x)).withRole .declarator))
    (hmark : ∀ t : Token, q (t.leaf .token))
    (hvalue : q (.node .expression (some .value) [(numberToken [' '] ['0']).leaf .numberLiteral])) :
    ∀ t ∈ declarationTrees M x, q t := by
  refine List.forall_mem_cons.mpr ⟨hdeclarator, List.forall_mem_append.mpr
    ⟨?_, List.forall_mem_singleton.mpr (hmark _)⟩⟩
  unfold pureTrees
  split
  · exact List.forall_mem_cons.mpr ⟨hmark _, List.forall_mem_singleton.mpr hvalue⟩
  · exact List.forall_mem_nil _

/-- The declarator of a method is one of a function, a pointer or a reference. -/
theorem kind_declarator (q : Kind → Prop) (M : MethodText) (x : Tree)
    (hfunction : q .functionDeclarator)
    (hreference : q .referenceDeclarator) (hpointer : q .pointerDeclarator) :
    q ((M.returns.layers.around (functionTree M x)).withRole .declarator).kind := by
  rw [Tree.kind_withRole]
  rcases M.returns.layers.kind_around (functionTree M x) with h | h | h <;> rw [h]
  · exact hfunction
  · exact hreference
  · exact hpointer

/-- A field is no definition. -/
theorem memberShape_field (h : ∀ t ∈ a, t.role ≠ some .body ∧ t.kind ≠ .methodClause) :
    memberShape a = some .fieldDeclaration := by
  have hdefinition : isDefinition a = false := by
    rw [isDefinition, Bool.or_eq_false_iff]
    exact ⟨List.any_eq_false.mpr fun t ht => by simpa using (h t ht).1,
      List.any_eq_false.mpr fun t ht => by simpa using (h t ht).2⟩
  rw [memberShape, hdefinition]
  rfl

/-- **A method is read as a field.** -/
theorem takes_member (h : M.Valid) (Q : M.Parts ts) {x y : Tree}
    (hx : Takes grammar (.rule (.declarator .fieldIdentifier)) (M.nameTokens ++ rest)
      [functionTree M x] (M.endTokens ++ rest))
    (hy : Takes grammar (.rule .type)
      (Q.type.base ++ (M.returns.layers.tokens ++ (M.nameTokens ++ rest))) [y]
      (M.returns.layers.tokens ++ (M.nameTokens ++ rest)))
    (hkind : y.kind.isTypal = true) :
    Takes grammar (.rule .member) (ts ++ rest)
      [methodTree M (Q.front.map (Token.leaf .virtual) ++
        Q.type.qualifiers.map (Token.leaf .typeQualifier)) y x] rest := by
  obtain ⟨lead, hfront⟩ := Q.virtual
  have hbegins := Q.begins rest
  have huncommented := hbegins.uncommented
  have hname : Ahead [.name] (M.nameTokens ++ rest) :=
    ahead_cons (List.mem_singleton_self _) (h.name.fits [' '])
  have hmodifiers (us : List Token) (hus : Ahead baseStarts us) :
      Takes grammar (.star (.rule .modifier)) ((Q.front ++ Q.type.qualifiers) ++ us)
        (Q.front.map (Token.leaf .virtual) ++
          Q.type.qualifiers.map (Token.leaf .typeQualifier)) us := by
    rw [hfront, List.append_assoc]
    exact takes_front (fun _ _ _ _ _ ht => ht) Q.type (fails_of_ahead hus (by decide)) M lead
  have hspecifiers := takes_specifiers Q.type.isBase hmodifiers hy
    (M.returns.layers.fails_tokens hname (by decide) (by decide))
  rw [← Q.append rest] at hspecifiers
  have hend : Takes grammar (.seq [opt (.rule .attribute), .mark ";"]) (markToken [] ';' :: rest)
      [(markToken [] ';').leaf .token] rest :=
    .skip (.next (fails_of_glance sees_mark (by decide)) (.first .nil)) (takes_mark rfl).last
  have hbehind : Takes grammar
      (.seq [opt memberDeclarators, opt (.rule .attribute), .mark ";"])
      (M.returns.layers.tokens ++ (M.nameTokens ++ rest))
      ((M.returns.layers.around (functionTree M x)).withRole .declarator :: pureTrees M ++
        [(markToken [] ';').leaf .token]) rest :=
    (takes_memberDeclarators h hx).first.append hend
  refine takes_between 10 12 rfl rfl hbegins.ahead (by decide) ?_ ?_
  · -- neither a constructor nor a conversion
    refine List.forall_mem_cons.mpr ⟨.shaped ?_, List.forall_mem_singleton.mpr ?_⟩
    · rw [huncommented]
      exact .cons (fails_constructor h Q rest)
    · exact fails_conversion h Q rest huncommented
  · have hplain : Takes grammar (.without (keyword memberWords)) (ts ++ rest) [] (ts ++ rest) :=
      .without (fails_of_ahead hbegins.ahead (by decide))
    refine .shaped_front huncommented ?_ (memberShape_field (List.forall_mem_append.mpr
      ⟨?_, List.forall_mem_cons.mpr ⟨?_, forall_declarationTrees ?_ ?_ ?_⟩⟩))
    · rw [List.append_cons]
      exact .skip hplain (.append hspecifiers (.last (.first hbehind)))
    · refine List.forall_mem_append.mpr ⟨fun t ht => ?_, fun t ht => ?_⟩
      all_goals
        obtain ⟨u, -, rfl⟩ := List.mem_map.mp ht
        exact ⟨nofun, nofun⟩
    · rw [Tree.role_withRole, Tree.kind_withRole]
      exact ⟨by decide, fun h => by rw [h] at hkind; cases hkind⟩
    · exact ⟨by rw [Tree.role_withRole]; decide,
       kind_declarator (· ≠ .methodClause) M x nofun nofun nofun⟩
    · exact fun t => ⟨nofun, nofun⟩
    · exact ⟨by decide, nofun⟩

end Scaffold.Cpp
