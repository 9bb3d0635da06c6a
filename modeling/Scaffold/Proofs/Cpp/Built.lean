import Scaffold.Proofs.Cpp.Parts
import Scaffold.Proofs.Cpp.Tops

/-!
# How declarations are built

What the grammar of C++ declarations makes sure of in every tree, as far as types are
spelled by it.

* `type_visible` -- there is something to see in every type;
* `alignment_tight` -- the text of a qualifier that is no word begins and ends with visible
  characters;
* `reference_headed` -- the declarator of a reference begins with `&`, `&&` or a comment;
* `makes_type`, `default_last` -- a parameter has a type, and one with a default value ends with
  an equals sign and that value;
* `built` -- all of this as one law, and that parameters stand in a list of parameters;
  `parse_built`: **it holds all over the tree of every text**.
-/
namespace Scaffold.Cpp

open Text (isBlank isWord Tight)
open Pattern (Derives Tops Shown derives_seq derives_alts derives_rule derives_node derives_role
  derives_one derives_nil derives_mark derives_without)

namespace Grammar

/-- What the rules of the grammar derive from the tokens of a text. -/
abbrev Makes (p : P) (a : List Tree) : Prop := Derives grammar Token.Fitting p a

variable {p q : P} {ps : List P} {a b : List Tree} {t : Tree}

/-! ## 1. Types -/

/-- The rules that a type begins with. -/
def typal : Rule → Prop
  | .type | .typeName | .segment _ | .classType | .enumType | .templateArguments => True
  | _ => False

theorem visible_marks : isBlank ':' = false ∧ isBlank '<' = false := by decide

theorem shown_typal (x : Rule) (h : typal x) : Shown typal (grammar x) := by
  cases x <;> simp only [typal] at h
  all_goals simp [grammar, typal, plus, keyword, visible_marks]

theorem tops_typal (x : Rule) (h : typal x) :
    Tops Tree.Visible (Shown typal) typal (grammar x) := by
  cases x <;> simp only [typal] at h
  all_goals simp [grammar, typal, plus, keyword, opt, classShape, Tree.Visible, Tree.text,
    visible_marks]

/-- **There is something to see in every type.** -/
theorem type_visible (h : Makes (.rule .type) a) : ∀ t ∈ a, t.Visible :=
  Pattern.derives_tops (fun _ _ _ => Tree.visible_of_word) (fun _ _ => Tree.visible_of_slash)
    (fun _ _ _ hp ha => by
      obtain ⟨t, ht, hvisible⟩ := Pattern.derives_shown shown_typal ha hp
      exact Tree.visible_node ht hvisible)
    tops_typal h (by simp [typal])

/-! ## 2. Qualifiers and references -/

/-- A comment is seen from its first character on. -/
theorem comment_seen {c : Tree} (h : Pattern.Comment Token.Fitting c) :
    ∃ x ∈ c.text.head?, isBlank x = false := by
  obtain ⟨t, ht, hsort, rfl⟩ := h
  exact ⟨'/', ht.2 hsort, by decide⟩

/-- Behind comments the first tree is one of them, or what follows. -/
theorem head_seen {before : List Tree}
    (hbefore : ∀ c ∈ before, Pattern.Comment Token.Fitting c)
    (ht : ∃ x ∈ t.text.head?, isBlank x = false) :
    ∃ u ∈ (before ++ t :: a).head?, ∃ x ∈ u.text.head?, isBlank x = false := by
  cases before with
  | nil => exact ⟨t, rfl, ht⟩
  | cons c before => exact ⟨c, rfl, comment_seen (hbefore c List.mem_cons_self)⟩

/-- The text of trees is tight if the first begins and the last ends with a visible
character. -/
theorem tight_texts {u : Tree}
    (hfirst : ∃ t ∈ (a ++ [u]).head?, ∃ x ∈ t.text.head?, isBlank x = false)
    (hlast : ∃ x ∈ u.text.getLast?, isBlank x = false) : Tight (Tree.texts (a ++ [u])) := by
  obtain ⟨t, ht, c, hc, hvisible⟩ := hfirst
  obtain ⟨d, hd, hvisible'⟩ := hlast
  constructor
  · obtain ⟨rest, hrest⟩ : ∃ rest, a ++ [u] = t :: rest := List.head?_eq_some_iff.mp ht
    refine ⟨c, ?_, hvisible⟩
    rw [hrest, Tree.texts, List.head?_append]
    exact Option.or_eq_some_iff.mpr (.inl hc)
  · obtain ⟨lead, hlead⟩ : ∃ lead, Tree.texts (a ++ [u]) = lead ++ u.text := by
      obtain ⟨lead, hlead⟩ := Tree.spelling_eq u
      have hspelling : Tree.spellings [u] = lead ++ u.text := by
        rw [Tree.spellings, Tree.spellings, List.append_nil, hlead]
      by_cases hnil : a = []
      · exact ⟨[], by rw [hnil, List.nil_append, Tree.texts, Tree.spellings, List.append_nil]; rfl⟩
      · exact ⟨Tree.texts a ++ lead, by
          rw [Tree.texts_append hnil, hspelling, List.append_assoc]⟩
    obtain ⟨front, hfront⟩ := List.getLast?_eq_some_iff.mp hd
    refine ⟨d, ?_, hvisible'⟩
    rw [hlead, hfront, ← List.append_assoc]
    exact List.getLast?_concat

theorem word_seen {text : List Char} (h : isWord text = true) : Tight text := by
  have hne := Text.ne_nil_of_isWord h
  refine ⟨⟨text.head hne, List.head?_eq_some_head hne, ?_⟩,
    ⟨text.getLast hne, List.getLast?_eq_some_getLast hne, ?_⟩⟩
  · exact Text.isBlank_of_isWord h _ (List.head_mem hne)
  · exact Text.isBlank_of_isWord h _ (List.getLast_mem hne)

/-- **The text of an alignment begins and ends with visible characters.** -/
theorem alignment_tight {words : List String}
    (h : Makes (.seq [keyword words, .group '(' ')']) a) : Tight (Tree.texts a) := by
  obtain ⟨b, c, hb, hc, rfl⟩ := derives_seq.mp h
  obtain ⟨before, t, hbefore, ht, haccepts, rfl⟩ := (Pattern.derives_token rfl).mp hb
  obtain ⟨between, lead, inside, lead', -, -, rfl⟩ := Pattern.derives_group.mp (derives_one.mp hc)
  have hword : isWord t.text = true := ht.1 (by simpa using (Bool.and_eq_true_iff.mp haccepts).1)
  have hlist : before ++ [.leaf .token none t.lead t.text] ++ (between ++
      .leaf .token none lead ['('] :: (inside ++ [.leaf .token none lead' [')']])) =
      (before ++ .leaf .token none t.lead t.text :: (between ++
        .leaf .token none lead ['('] :: inside)) ++ [.leaf .token none lead' [')']] := by
    simp
  rw [hlist]
  refine tight_texts ?_ ⟨')', rfl, by decide⟩
  rw [List.append_assoc]
  exact head_seen hbefore (word_seen hword).1

/-- A tree that the declarator of a reference may begin with. -/
def heads (t : Tree) : Prop :=
  ∃ lead text, t = .leaf .comment none lead text ∨
    text ∈ ["&&".toList, "&".toList] ∧ t = .leaf .token none lead text

/-- **The declarator of a reference begins with its mark**, or with comments. -/
theorem reference_headed (h : Makes (.seq (.alts [.mark "&&", .mark "&"] :: ps)) a) :
    ∃ t ∈ a.head?, heads t := by
  obtain ⟨b, c, hb, -, rfl⟩ := derives_seq.mp h
  have hhead {text : String} (htext : text.toList ∈ ["&&".toList, "&".toList])
      (h : Makes (.mark text) b) : ∃ t ∈ (b ++ c).head?, heads t := by
    obtain ⟨before, lead, hbefore, rfl⟩ := derives_mark.mp h
    cases before with
    | nil => exact ⟨_, rfl, lead, _, .inr ⟨htext, rfl⟩⟩
    | cons u before =>
      obtain ⟨t, -, -, rfl⟩ := hbefore u List.mem_cons_self
      exact ⟨_, rfl, _, _, .inl rfl⟩
  obtain ⟨p, hp, hb⟩ := derives_alts.mp hb
  rcases List.mem_cons.mp hp with rfl | hp
  · exact hhead (by decide) hb
  · obtain rfl := List.mem_singleton.mp hp
    exact hhead (by decide) hb

/-! ## 3. Default values -/

/-- The rules that come in front of the default value of a parameter. -/
def parametric : Rule → Prop
  | .specifiers | .modifier | .qualifier | .attribute | .type | .typeName | .segment _
  | .classType | .enumType | .templateArguments | .declarator _ | .plainDeclarator _
  | .operatorName | .abstractDeclarator | .abstractBase => True
  | _ => False

/-- The tree is no default value. -/
def NoValue (t : Tree) : Prop := t.role ≠ some .value

theorem noValue_node (kind : Kind) (a : List Tree) : NoValue (.node kind none a) := by
  simp [NoValue, Tree.role]

theorem noValue_leaf (kind : Kind) (lead text : List Char) : NoValue (.leaf kind none lead text) := by
  simp [NoValue, Tree.role]

theorem noValue_withRole {r : Role} (h : r ≠ .value) (t : Tree) : NoValue (t.withRole r) := by
  simpa [NoValue] using h

/-- The trees of the pattern are no default values. -/
abbrev Valueless : P → Prop := Tops NoValue (fun _ => True) parametric

theorem tops_parametric (x : Rule) (h : parametric x) : Valueless (grammar x) := by
  cases x <;> simp only [parametric] at h
  all_goals simp [grammar, parametric, plus, keyword, opt, parens, declaredName, declaratorTails,
    abstractTails, classShape, noValue_node, noValue_leaf, noValue_withRole]

/-- What is valueless makes no default value. -/
theorem makes_noValue (hp : Valueless p) (h : Makes p a) : ∀ t ∈ a, NoValue t :=
  Pattern.derives_tops (fun _ _ _ _ => noValue_leaf _ _ _) (fun _ _ _ => noValue_leaf _ _ _)
    (fun _ _ _ _ _ => noValue_node _ _) tops_parametric h hp

/-- An equals sign and a value, with comments between them. -/
def DefaultValue (ts : List Tree) : Prop :=
  ∃ lead between value, ts = .leaf .token none lead ['='] :: (between ++ [value]) ∧
    (∀ c ∈ between, ∃ lead text, c = .leaf .comment none lead text) ∧
    value.kind = .expression ∧ value.role = some .value

/-- Trees that end with an equals sign and a value. -/
def EndsInValue (ts : List Tree) : Prop :=
  ∃ front value, ts = front ++ value ∧ DefaultValue value

theorem EndsInValue.append {ts : List Tree} (h : EndsInValue ts) (front : List Tree) :
    EndsInValue (front ++ ts) := by
  obtain ⟨before, value, rfl, hvalue⟩ := h
  exact ⟨front ++ before, value, (List.append_assoc ..).symm, hvalue⟩

/-- The default value of a parameter. -/
theorem makes_default (h : Makes (.seq [equals, .role .value (.alts [.rule (.expression false)])]) a) :
    EndsInValue a := by
  obtain ⟨b, c, hequals, hvalue, rfl⟩ := derives_seq.mp h
  -- the equals sign
  obtain ⟨n, b, hnone, hmark, rfl⟩ := derives_seq.mp hequals
  obtain rfl := derives_without.mp hnone
  obtain ⟨before, lead, -, rfl⟩ := derives_mark.mp (derives_one.mp hmark)
  -- the value
  obtain ⟨e, he, rfl⟩ := derives_role.mp (derives_one.mp hvalue)
  obtain ⟨p, hp, he⟩ := derives_alts.mp he
  obtain rfl := List.mem_singleton.mp hp
  obtain ⟨between, cs, hbetween, -, rfl⟩ := derives_node.mp (derives_rule.mp he)
  rw [Pattern.roleLast_concat]
  refine ⟨before, .leaf .token none lead ['='] :: (between ++ [.node .expression (some .value) cs]),
    ?_, lead, between, _, rfl, ?_, rfl, rfl⟩
  · simp [Tree.withRole]
  · intro c hc
    obtain ⟨t, -, -, rfl⟩ := hbetween c hc
    exact ⟨_, _, rfl⟩

/-- The list of the parameters of a function. -/
theorem makes_parameters (h : Makes (.rule .parameters) a) (ht : a.getLast? = some t) :
    t.kind = .parameterList := by
  obtain ⟨before, cs, -, -, rfl⟩ := derives_node.mp (derives_rule.mp h)
  rw [List.getLast?_concat] at ht
  rw [← Option.some.inj ht]
  rfl

/-- The parts of a parameter, as the grammar has them. -/
def parameterParts : P := .seq
  [.rule .specifiers,
    .alts
      [.role .declarator (.node .variadicDeclarator
         (.seq [.mark "...", opt (.name .identifier declaratorWords)])),
       .role .declarator (.node .referenceDeclarator (.seq
         [.alts [.mark "&&", .mark "&"], .node .variadicDeclarator
           (.seq [.mark "...", opt (.name .identifier declaratorWords)])])),
       .seq
         [opt (.role .declarator (.alts
            [.seq [.rule (.declarator .identifier),
               .ahead (.alts [.mark ",", .mark ")", .mark "=", .rule .attribute])],
             .rule .abstractDeclarator])),
          .star (.rule .attribute),
          opt (.seq [equals, .role .value (.alts [.rule (.expression false)])])]]]

/-- **A parameter has a type.** -/
theorem makes_type (h : Makes parameterParts a) : ∃ t ∈ a, t.role = some .type := by
  obtain ⟨s, b, hs, -, rfl⟩ := derives_seq.mp h
  obtain ⟨m, c, -, hc, rfl⟩ := derives_seq.mp (derives_rule.mp hs)
  obtain ⟨d, e, hd, -, rfl⟩ := derives_seq.mp hc
  obtain ⟨ts, hts, rfl⟩ := derives_role.mp hd
  obtain ⟨t, ht, -⟩ := Pattern.derives_shown shown_typal hts trivial
  obtain ⟨ts, u, rfl⟩ := ts.eq_nil_or_concat.resolve_left (List.ne_nil_of_mem ht)
  refine ⟨u.withRole .type, ?_, Tree.role_withRole _ _⟩
  rw [List.concat_eq_append, Pattern.roleLast_concat]
  simp

/-- **A parameter with a default value ends with an equals sign and that value.** -/
theorem default_last (h : Makes parameterParts a) (hvalue : hasRole .value a = true) :
    EndsInValue a := by
  have hnone {b : List Tree} (hb : ∀ t ∈ b, NoValue t) : ¬hasRole .value b = true := by
    intro hrole
    obtain ⟨t, ht, hrole⟩ := List.any_eq_true.mp hrole
    exact hb t ht (eq_of_beq hrole)
  obtain ⟨s, b, hs, hb, rfl⟩ := derives_seq.mp h
  have hs := makes_noValue (by simp [parametric]) hs
  -- what is valueless would make a list without a value
  have hvalueless {p : P} {b : List Tree} (hp : Valueless p) (hb : Makes p b)
      (hvalue : hasRole .value (s ++ b) = true) : False :=
    hnone (List.forall_mem_append.mpr ⟨hs, makes_noValue hp hb⟩) hvalue
  refine .append ?_ s
  obtain ⟨p, hp, hb⟩ := derives_alts.mp (derives_one.mp hb)
  simp only [List.mem_cons, List.not_mem_nil, or_false] at hp
  rcases hp with rfl | rfl | rfl
  · exact (hvalueless (by simp [noValue_withRole]) hb hvalue).elim
  · exact (hvalueless (by simp [noValue_withRole]) hb hvalue).elim
  · obtain ⟨d, c, hd, hc, rfl⟩ := derives_seq.mp hb
    obtain ⟨e, f, he, hf, rfl⟩ := derives_seq.mp hc
    obtain ⟨p, hp, hf'⟩ := derives_alts.mp (derives_one.mp hf)
    rcases List.mem_cons.mp hp with rfl | hp
    · exact .append (.append (makes_default hf') e) d
    · obtain rfl := List.mem_singleton.mp hp
      obtain rfl := derives_nil.mp hf'
      have hfront : Makes (.seq [_, _, .seq []]) (d ++ (e ++ [])) :=
        .seq hd (.seq he (derives_one.mpr hf'))
      exact (hvalueless (by simp [opt, parametric, noValue_withRole]) hfront hvalue).elim

/-! ## 4. The law -/

/-- What the trees right below a node are like. -/
def Built : Kind → List Tree → Prop
  | .typeQualifier, a => Tight (Tree.texts a)
  | .referenceDeclarator, a | .abstractReferenceDeclarator, a => ∃ t ∈ a.head?, heads t
  | .optionalParameter, a => EndsInValue a ∧ ∃ t ∈ a, t.role = some .type
  | _, _ => True

/-- What the grammar makes sure of, as far as types are spelled by it. -/
def built : Law where
  leaf kind text := kind = .typeQualifier → Tight text
  node := Built
  role r t := (r = .type → t.Visible) ∧ (r = .parameters → t.kind = .parameterList)

variable {k : Kind}

theorem built_leaf {text : List Char} :
    built.leaf k text ↔ (k = .typeQualifier → Tight text) := Iff.rfl

theorem built_node : built.node k a ↔ Built k a := Iff.rfl

theorem built_role {r : Role} : built.role r t ↔
    (r = .type → t.Visible) ∧ (r = .parameters → t.kind = .parameterList) := Iff.rfl

theorem built_of_other (h : k ∉ [Kind.typeQualifier, .referenceDeclarator,
    .abstractReferenceDeclarator, .optionalParameter]) : Built k a := by
  cases k <;> trivial

theorem built_memberShape (h : memberShape a = some k) : Built k a := by
  rcases memberShape_kind h with rfl | rfl <;> trivial

theorem built_constructorShape (h : constructorShape a = some k) : Built k a := by
  rcases constructorShape_kind h with rfl | rfl <;> trivial

theorem built_itemShape (h : itemShape a = some k) : Built k a := by
  rcases itemShape_kind h with rfl | rfl <;> trivial

theorem built_nameShape (h : nameShape a = some k) : Built k a := by
  rcases nameShape_kind h with rfl | rfl <;> trivial

theorem built_segmentShape (h : segmentShape a = some k) : Built k a := by
  rw [segmentShape_kind h]
  trivial

theorem built_declaredShape (h : declaredShape a = some k) : Built k a := by
  rcases declaredShape_kind h with rfl | rfl <;> trivial

theorem built_namespaceShape (h : namespaceShape a = some k) : Built k a := by
  rw [namespaceShape_kind h]
  trivial

theorem built_classShape (h : classShape a = some k) : Built k a := by
  rcases classShape_kind h with rfl | rfl | rfl <;> trivial

theorem built_parameterShape (ha : Makes parameterParts a) (h : parameterShape a = some k) :
    Built k a := by
  obtain rfl := Option.some.inj h
  split
  · rename_i hvalue
    exact ⟨default_last ha hvalue, makes_type ha⟩
  · split <;> trivial

theorem tight_of_word {u : Token} (hu : u.Fitting) (hsort : u.sort = .word) : Tight u.text :=
  word_seen (hu.1 hsort)

/-- The grammar keeps the law. -/
abbrev Lawful : P → Prop := Pattern.Lawful grammar Token.Fitting built

/-- **Every rule of the grammar keeps the law.** -/
theorem lawful_grammar (x : Rule) : Lawful (grammar x) := by
  cases x
  all_goals simp +contextual [grammar, built_leaf, built_node, built_role, built_of_other,
    built_memberShape, built_constructorShape, built_itemShape, built_nameShape,
    built_segmentShape, built_declaredShape, built_namespaceShape, built_classShape,
    tight_of_word, directiveLine, operand, includeLine, innerDirective, aliasDeclaration,
    staticAssertion, declaratorList, memberDeclarators, declaredName, declaratorTails,
    abstractTails, opt, plus, sepBy, commaList, keyword, colon, equals, parens, conditional,
    braced, terminator, strayToken, closing, branchEnd]
  case specifiers => exact fun a t ha ht => type_visible ha t (List.mem_of_getLast? ht)
  case typeDescriptor => exact fun a t ha ht => type_visible ha t (List.mem_of_getLast? ht)
  case qualifier => exact fun a ha => alignment_tight ha
  case «attribute» => exact fun a ha => alignment_tight ha
  case declarator => exact fun a ha => reference_headed ha
  case abstractDeclarator => exact fun a ha => reference_headed ha
  case functionTail => exact fun a t ha ht => makes_parameters ha ht
  case parameter =>
    exact ⟨fun a k ha hk => built_parameterShape ha hk, fun a ha => reference_headed ha⟩

end Grammar

open Grammar (built)

/-- **The law holds all over the tree of every text.** -/
theorem parse_built (cs : List Char) : built.Holds (parse cs) := by
  obtain ⟨a, hparse, ha⟩ := parse_derives (T := Token.Fitting) cs (tokens_fit cs)
  have hplain (t : Tree) (h : Pattern.Plain t) : built.Root t := by
    obtain ⟨kind, lead, text, rfl, hkind⟩ := h
    rintro rfl
    simp at hkind
  rw [hparse]
  refine Law.holds_node trivial (Pattern.derives_lawful hplain Grammar.lawful_grammar ha ?_)
  simp

end Scaffold.Cpp
