import Scaffold.Proofs.Cpp.Layers
import Scaffold.Proofs.Text.Identifiers

/-!
# Names in a syntax tree are words

* `Tree.Named` -- every leaf of a tree that stands for a name is a word;
* `Grammar.naming` -- this as a law; `naming_grammar`: **every rule of the grammar keeps it**;
* `firstToken_cases`, `tokensFrom_cases` -- what the first token of a text is, and where the
  tokens of a text come from; `tokens_fit`: their texts fit their classes;
* `describe_words` -- so the names of the classes and the methods in the description of a
  header are words, whatever its text is.
-/
namespace Scaffold.Cpp

open Text (isWord)

/-! ## 1. Trees and tokens -/

/-- The kinds of leaves that the description takes for the names of namespaces, classes and
methods. -/
def Kind.isName (k : Kind) : Bool :=
  k == .identifier || k == .fieldIdentifier || k == .typeIdentifier || k == .namespaceIdentifier

/-- The names in a tree are words, and they are leaves. -/
inductive Tree.Named : Tree → Prop where
  | leaf {k : Kind} {r : Option Role} {lead text : List Char}
      (h : k.isName = true → isWord text = true) : Tree.Named (.leaf k r lead text)
  | node {k : Kind} {r : Option Role} {cs : List Tree} (hk : k.isName = false)
      (h : ∀ c ∈ cs, Tree.Named c) : Tree.Named (.node k r cs)

/-- A token of the class of words is a word. -/
def Token.Worded (t : Token) : Prop := t.sort = .word → isWord t.text = true

namespace Tree

variable {t u : Tree}

theorem Named.children (h : t.Named) : ∀ c ∈ t.children, c.Named := by
  cases h with
  | leaf _ => exact List.forall_mem_nil _
  | node _ h => exact h

theorem Named.child (h : t.Named) {r : Role} (hu : t.child? r = some u) : u.Named :=
  h.children u (List.mem_of_find?_eq_some hu)

/-- The parts of a named tree are named. -/
theorem Named.part (h : t.Named) (hu : t.Part u) : u.Named := by
  induction hu with
  | whole => exact h
  | inside _ hc ih => exact ih.children _ hc

/-- **A named tree that stands for a name is a word.** -/
theorem Named.word (h : t.Named) (hk : t.kind.isName = true) : isWord t.text = true := by
  cases h with
  | leaf h => exact h hk
  | node hnone _ =>
    rw [Tree.kind] at hk
    rw [hk] at hnone
    cases hnone

end Tree

/-! ## 2. The grammar -/

namespace Grammar

/-- Names are leaves, and they are words. -/
def naming : Law where
  leaf k text := k.isName = true → isWord text = true
  node k _ := k.isName = false
  role _ _ := True

/-- **A tree is named if the law holds all over it.** -/
theorem named_of_holds : ∀ t : Tree, naming.Holds t → t.Named
  | .leaf .., h => .leaf (Law.holds_iff.mp h).1
  | .node k r cs, h => by
      obtain ⟨hroot, -, hcs⟩ := Law.holds_iff.mp h
      exact .node hroot fun c hc => named_of_holds c (hcs c hc)

variable {k : Kind} {a : List Tree} {t : Tree}

theorem naming_leaf {text : List Char} :
    naming.leaf k text ↔ (k.isName = true → isWord text = true) := Iff.rfl

theorem naming_role {r : Role} : naming.role r t := trivial

theorem naming_of_other (h : k ∉ [Kind.identifier, .fieldIdentifier, .typeIdentifier,
    .namespaceIdentifier]) : naming.node k a := by
  cases k <;> first | rfl | exact absurd (by decide) h

theorem naming_memberShape (h : memberShape a = some k) : naming.node k a := by
  rcases memberShape_kind h with rfl | rfl <;> rfl

theorem naming_constructorShape (h : constructorShape a = some k) : naming.node k a := by
  rcases constructorShape_kind h with rfl | rfl <;> rfl

theorem naming_itemShape (h : itemShape a = some k) : naming.node k a := by
  rcases itemShape_kind h with rfl | rfl <;> rfl

theorem naming_parameterShape (h : parameterShape a = some k) : naming.node k a := by
  rcases parameterShape_kind h with rfl | rfl | rfl <;> rfl

theorem naming_nameShape (h : nameShape a = some k) : naming.node k a := by
  rcases nameShape_kind h with rfl | rfl <;> rfl

theorem naming_segmentShape (h : segmentShape a = some k) : naming.node k a := by
  rw [segmentShape_kind h]
  rfl

theorem naming_declaredShape (h : declaredShape a = some k) : naming.node k a := by
  rcases declaredShape_kind h with rfl | rfl <;> rfl

theorem naming_namespaceShape (h : namespaceShape a = some k) : naming.node k a := by
  rw [namespaceShape_kind h]
  rfl

theorem naming_classShape (h : classShape a = some k) : naming.node k a := by
  rcases classShape_kind h with rfl | rfl | rfl <;> rfl

/-- Tokens that are names are words. -/
theorem word_of_worded {u : Token} (hu : u.Worded) (hsort : u.sort = .word) :
    isWord u.text = true :=
  hu hsort

/-- **Every rule of the grammar makes names of words only.** -/
theorem naming_grammar (x : Rule) :
    Pattern.Lawful grammar Token.Worded naming (grammar x) := by
  cases x
  all_goals simp +contextual [grammar, naming_leaf, naming_role, naming_of_other, Kind.isName,
    naming_memberShape, naming_constructorShape, naming_itemShape, naming_parameterShape,
    naming_nameShape, naming_segmentShape, naming_declaredShape, naming_namespaceShape,
    naming_classShape, word_of_worded, directiveLine, operand, includeLine, innerDirective,
    aliasDeclaration, staticAssertion, declaratorList, memberDeclarators, declaredName,
    declaratorTails, abstractTails, opt, plus, sepBy, commaList, keyword, colon, equals, parens,
    conditional, braced, terminator, strayToken, closing, branchEnd]

end Grammar

/-! ## 3. Tokens -/

theorem quoted_sort {mark cs text rest : List Char} {sort : TokenClass}
    (h : quoted mark cs = some (sort, text, rest)) : sort = .string ∨ sort = .character := by
  unfold quoted at h
  split at h
  · obtain ⟨x, -, heq⟩ := Option.map_eq_some_iff.mp h
    exact .inl (congrArg Prod.fst heq).symm
  · split at h
    · obtain ⟨x, -, heq⟩ := Option.map_eq_some_iff.mp h
      exact .inr (congrArg Prod.fst heq).symm
    · cases h
  · cases h

theorem directive_sort {cs text rest : List Char} {sort : TokenClass}
    (h : directive cs = some (sort, text, rest)) : ∃ name, sort = .directive name := by
  unfold directive at h
  dsimp only at h
  split at h
  · cases h
  · cases h
  · split at h <;> exact ⟨_, (congrArg Prod.fst (Option.some.inj h)).symm⟩

theorem includeOperand_sort {cs text rest : List Char} {sort : TokenClass}
    (h : includeOperand cs = some (sort, text, rest)) :
    sort = .systemOperand ∨ sort = .quotedOperand ∨ sort = .macroOperand := by
  unfold includeOperand at h
  split at h
  · dsimp only at h
    split at h
    · exact .inl (congrArg Prod.fst (Option.some.inj h)).symm
    · cases h
  · obtain ⟨x, -, heq⟩ := Option.map_eq_some_iff.mp h
    exact .inr (.inl (congrArg Prod.fst heq).symm)
  · split at h
    · dsimp only at h
      split at h <;> exact .inr (.inr (congrArg Prod.fst (Option.some.inj h)).symm)
    · cases h
  · cases h

/-- A class of tokens that are neither words nor comments and are read alike wherever they
stand. -/
def TokenClass.isSimple : TokenClass → Bool
  | .number | .string | .character | .mark | .directive _ => true
  | _ => false

theorem simple_of_quoted {mark cs text rest : List Char} {sort : TokenClass}
    (h : quoted mark cs = some (sort, text, rest)) : sort.isSimple = true := by
  rcases quoted_sort h with rfl | rfl <;> rfl

theorem simple_of_directive {cs text rest : List Char} {sort : TokenClass}
    (h : directive cs = some (sort, text, rest)) : sort.isSimple = true := by
  obtain ⟨name, rfl⟩ := directive_sort h
  rfl

/-- **What the first token of a text is**: a word, a comment, or of a simple class. -/
theorem firstToken_cases {P : TokenClass → List Char → Prop}
    (hword : ∀ text, isWord text = true → P .word text)
    (hcomment : ∀ text, P .comment ('/' :: text))
    (hsimple : ∀ sort text, sort.isSimple = true → P sort text) (cs : List Char) :
    P (firstToken cs).1 (firstToken cs).2.1 := by
  unfold firstToken
  split
  · exact hsimple _ _ rfl
  · exact hcomment _
  · rename_i c cs _
    dsimp only
    split
    · rename_i hslash
      obtain rfl := eq_of_beq hslash
      split
      · rename_i cs' _
        cases hb : blockComment cs' with
        | none => exact hsimple _ _ rfl
        | some x => exact hcomment _
      · exact hsimple _ _ rfl
    · split
      · cases hd : directive cs with
        | none => exact hsimple _ _ rfl
        | some x => exact hsimple _ _ (simple_of_directive hd)
      · split
        · rename_i hstart
          have hname : isWord (c :: cs.takeWhile Text.isIdentifierPart) = true :=
            Text.isWord_cons.mpr ⟨hstart, fun x hx => List.mem_takeWhile_imp hx⟩
          cases hq : quoted (c :: cs.takeWhile Text.isIdentifierPart)
              ((c :: cs).drop (c :: cs.takeWhile Text.isIdentifierPart).length) with
          | none => exact hword _ hname
          | some x => exact hsimple _ _ (simple_of_quoted hq)
        · split
          · exact hsimple _ _ rfl
          · split
            · split
              · split
                · exact hsimple _ _ rfl
                · exact hsimple _ _ rfl
              · exact hsimple _ _ rfl
            · cases hq : quoted [] (c :: cs) with
              | none => exact hsimple _ _ rfl
              | some x => exact hsimple _ _ (simple_of_quoted hq)

/-- **Where tokens come from**: each is the first of some text, or the operand of an include
directive. -/
theorem tokensFrom_cases (n : Nat) (operand : Bool) (cs : List Char) :
    ∀ t ∈ tokensFrom n operand cs, ∃ front rest,
      firstToken front = (t.sort, t.text, rest) ∨
        includeOperand front = some (t.sort, t.text, rest) := by
  induction n generalizing operand cs with
  | zero => exact fun _ ht => nomatch ht
  | succ n ih =>
    rw [tokensFrom]
    split
    · exact fun _ ht => nomatch ht
    · rename_i lead front hfront hsplit
      have hfirst {sort : TokenClass} {text rest : List Char}
          (h : (if operand && !lead.contains '\n' then (includeOperand front).getD (firstToken front)
            else firstToken front) = (sort, text, rest)) :
          firstToken front = (sort, text, rest) ∨
            includeOperand front = some (sort, text, rest) := by
        split at h
        · cases ho : includeOperand front with
          | none =>
            rw [ho, Option.getD_none] at h
            exact .inl h
          | some x =>
            rw [ho, Option.getD_some] at h
            exact .inr (congrArg some h)
        · exact .inl h
      intro t ht
      rcases List.mem_cons.mp ht with rfl | ht
      · exact ⟨front, _, hfirst rfl⟩
      · exact ih _ _ t ht

theorem tokens_cases (cs : List Char) : ∀ t ∈ tokens cs, ∃ front rest,
    firstToken front = (t.sort, t.text, rest) ∨
      includeOperand front = some (t.sort, t.text, rest) := by
  unfold tokens
  split <;> exact tokensFrom_cases _ _ _

/-- What is known of the text of a token by its class: a word is one, and a comment begins
with a slash. -/
def TokenClass.Fits (sort : TokenClass) (text : List Char) : Prop :=
  (sort = .word → isWord text = true) ∧ (sort = .comment → text.head? = some '/')

theorem firstToken_fits (cs : List Char) :
    (firstToken cs).1.Fits (firstToken cs).2.1 := by
  refine firstToken_cases (fun text hword => ?_) (fun text => ?_) (fun sort text hsimple => ?_) cs
  · exact ⟨fun _ => hword, fun h => (nomatch h)⟩
  · exact ⟨fun h => (nomatch h), fun _ => rfl⟩
  · constructor <;> rintro rfl <;> cases hsimple

/-- **The text of every token fits its class.** -/
theorem tokens_fit (cs : List Char) : ∀ t ∈ tokens cs, t.sort.Fits t.text := by
  intro t ht
  obtain ⟨front, rest, hfirst | hoperand⟩ := tokens_cases cs t ht
  · have hfits := firstToken_fits front
    rwa [hfirst] at hfits
  · rcases includeOperand_sort hoperand with hsort | hsort | hsort <;>
    · rw [hsort]
      exact ⟨fun h => (nomatch h), fun h => (nomatch h)⟩

/-- **The words among the tokens of a text are words.** -/
theorem tokens_worded (cs : List Char) : ∀ t ∈ tokens cs, t.Worded :=
  fun t ht => (tokens_fit cs t ht).1

/-! ## 4. Descriptions -/

/-- The tree of every text is named. -/
theorem parse_named (cs : List Char) : (parse cs).Named := by
  obtain ⟨a, hparse, ha⟩ := parse_derives cs (tokens_worded cs)
  have hplain (t : Tree) (h : Pattern.Plain t) : Grammar.naming.Root t := by
    obtain ⟨kind, lead, text, rfl, rfl | rfl | rfl⟩ := h <;>
    · exact fun hk => absurd hk Bool.false_ne_true
  rw [hparse]
  refine .node rfl fun t ht => Grammar.named_of_holds t ?_
  exact Pattern.derives_lawful hplain Grammar.naming_grammar ha (by simp) t ht

namespace Tree

variable {t u : Tree}

/-- The name of a method is a word. -/
theorem method_word {m : Method} (h : t.Named) (hm : t.method? = some m) :
    isWord m.name.toList = true := by
  unfold method? at hm
  simp only [Option.bind_eq_bind, Option.bind_eq_some_iff] at hm
  obtain ⟨type, -, d, hd, function, hfunction, hm⟩ := hm
  split at hm
  · cases hm
  · obtain ⟨name, hname, hm⟩ := Option.bind_eq_some_iff.mp hm
    have hnamed : name.Named := ((h.child hd).part (part_of_peel d hfunction)).child hname
    split at hm
    · cases hm
    · rename_i hkind
      obtain rfl := Option.some.inj hm
      have hisName : name.kind.isName = true := by
        by_cases hf : name.kind = .fieldIdentifier
        · rw [hf]
          rfl
        · by_cases hi : name.kind = .identifier
          · rw [hi]
            rfl
          · simp [hf, hi] at hkind
      rw [Method.describe, String.toList_ofList]
      exact hnamed.word hisName

theorem methodsFrom_words {a : Access} {ts : List Tree} (h : ∀ t ∈ ts, t.Named) :
    ∀ m ∈ methodsFrom a ts, isWord m.name.toList = true := by
  induction ts generalizing a with
  | nil => exact fun _ hm => nomatch hm
  | cons t ts ih =>
    have hts : ∀ u ∈ ts, u.Named := fun u hu => h u (List.mem_cons_of_mem t hu)
    rw [methodsFrom]
    split
    · exact ih hts
    · split
      · split
        · rename_i m hm
          exact List.forall_mem_cons.mpr ⟨method_word (h t List.mem_cons_self) hm, ih hts⟩
        · exact ih hts
      · exact ih hts

/-- The name of a class is a word. -/
theorem className_word {parent : Kind} {name : List Char} (h : t.Named)
    (hname : t.className? parent = some name) : isWord name = true := by
  unfold className? at hname
  split at hname
  · cases hname
  · obtain ⟨body, -, hname⟩ := Option.bind_eq_some_iff.mp hname
    obtain ⟨n, hn, hname⟩ := Option.bind_eq_some_iff.mp hname
    split at hname
    · rename_i hkind
      rw [← Option.some.inj hname]
      refine (h.child hn).word ?_
      rw [eq_of_beq hkind]
      rfl
    · cases hname

end Tree

/-- The names that a class is described with are words. -/
structure ClassWords (c : ClassDecl) : Prop where
  names : ∀ n ∈ c.outerClasses ++ [c.name], isWord n.toList = true
  methods : ∀ m ∈ c.methods, isWord m.name.toList = true

namespace Tree

variable {scope : Scope} {parent : Kind}

theorem classDecl_words {t : Tree} {name : List Char} {initial : Access} (h : t.Named)
    (hscope : ∀ n ∈ scope.classes, isWord n.toList = true) (hname : isWord name = true) :
    ClassWords (t.classDecl scope (String.ofList name) initial) := by
  constructor
  · intro n hn
    rcases List.mem_append.mp hn with hn | hn
    · exact hscope n hn
    · rw [List.mem_singleton.mp hn]
      change isWord (String.ofList name).toList = true
      rwa [String.toList_ofList]
  · intro m hm
    cases hbody : t.child? .body with
    | none =>
      rw [classDecl, hbody] at hm
      cases hm
    | some body =>
      rw [classDecl, hbody] at hm
      refine methodsFrom_words (fun u hu => ?_) m hm
      exact (h.child hbody).children u (List.mem_filter.mp hu).1

/-- What is found behind what was found. -/
theorem append_words {a b : Findings} (ha : ∀ c ∈ a.classes, ClassWords c)
    (hb : ∀ c ∈ b.classes, ClassWords c) : ∀ c ∈ (a ++ b).classes, ClassWords c :=
  List.forall_mem_append.mpr ⟨ha, hb⟩

mutual

/-- **The classes that are found in a named tree are described with words.** -/
theorem visit_words (scope : Scope) (parent : Kind)
    (hscope : ∀ n ∈ scope.classes, isWord n.toList = true) :
    ∀ t : Tree, t.Named → ∀ c ∈ (visit scope parent t).classes, ClassWords c
  | .leaf .., _, c, hc => by
      rw [visit] at hc
      cases hc
  | .node kind r cs, h, c, hc => by
      have hcs : ∀ u ∈ cs, u.Named := h.children
      rw [visit.eq_def] at hc
      dsimp only at hc
      -- the classes of a class and of a struct are found alike
      have hclass {name : List Char} {initial : Access}
          (hname : isWord name = true)
          (hc : c ∈ (⟨[], [(Tree.node kind r cs).classDecl scope (String.ofList name) initial], []⟩ ++
            visitBody ⟨scope.namespaces, scope.classes ++ [String.ofList name]⟩ cs :
              Findings).classes) : ClassWords c := by
        rcases List.mem_append.mp hc with hc | hc
        · rw [List.mem_singleton.mp hc]
          exact classDecl_words h hscope hname
        · refine visitBody_words _ ?_ cs hcs c hc
          exact List.forall_mem_append.mpr ⟨hscope, fun n hn => by
            rwa [List.mem_singleton.mp hn, String.toList_ofList]⟩
      split at hc
      · rcases List.mem_append.mp hc with hc | hc
        · cases hc
        · refine visitBody_words _ ?_ cs hcs c hc
          exact hscope
      · split at hc
        · cases hc
        · rename_i name hname
          exact hclass (className_word h hname) hc
      · split at hc
        · cases hc
        · rename_i name hname
          exact hclass (className_word h hname) hc
      · cases hc
      · exact visitOutside_words scope _ hscope cs hcs c hc
      · exact visitOutside_words scope _ hscope cs hcs c hc
      · exact visitOutside_words scope _ hscope cs hcs c hc
      · exact visitAll_words scope kind hscope cs hcs c hc

theorem visitAll_words (scope : Scope) (parent : Kind)
    (hscope : ∀ n ∈ scope.classes, isWord n.toList = true) :
    ∀ ts : List Tree, (∀ t ∈ ts, t.Named) → ∀ c ∈ (visitAll scope parent ts).classes, ClassWords c
  | [], _, c, hc => by
      rw [visitAll] at hc
      cases hc
  | t :: ts, h, c, hc => by
      rw [visitAll] at hc
      obtain ⟨ht, hts⟩ := List.forall_mem_cons.mp h
      exact append_words (visit_words scope parent hscope t ht)
        (visitAll_words scope parent hscope ts hts) c hc

theorem visitOutside_words (scope : Scope) (parent : Kind)
    (hscope : ∀ n ∈ scope.classes, isWord n.toList = true) :
    ∀ ts : List Tree, (∀ t ∈ ts, t.Named) →
      ∀ c ∈ (visitOutside scope parent ts).classes, ClassWords c
  | [], _, c, hc => by
      rw [visitOutside] at hc
      cases hc
  | t :: ts, h, c, hc => by
      rw [visitOutside] at hc
      obtain ⟨ht, hts⟩ := List.forall_mem_cons.mp h
      refine append_words ?_ (visitOutside_words scope parent hscope ts hts) c hc
      split
      · exact fun _ hnone => nomatch hnone
      · exact visit_words scope parent hscope t ht

theorem visitBody_words (scope : Scope) (hscope : ∀ n ∈ scope.classes, isWord n.toList = true) :
    ∀ ts : List Tree, (∀ t ∈ ts, t.Named) → ∀ c ∈ (visitBody scope ts).classes, ClassWords c
  | [], _, c, hc => by
      rw [visitBody] at hc
      cases hc
  | t :: ts, h, c, hc => by
      rw [visitBody] at hc
      obtain ⟨ht, hts⟩ := List.forall_mem_cons.mp h
      split at hc
      · exact visitBelow_words scope hscope t ht c hc
      · exact visitBody_words scope hscope ts hts c hc

theorem visitBelow_words (scope : Scope) (hscope : ∀ n ∈ scope.classes, isWord n.toList = true) :
    ∀ t : Tree, t.Named → ∀ c ∈ (visitBelow scope t).classes, ClassWords c
  | .leaf .., _, c, hc => by
      rw [visitBelow] at hc
      cases hc
  | .node kind r cs, h, c, hc => by
      rw [visitBelow] at hc
      exact visitAll_words scope kind hscope cs h.children c hc

end

end Tree

/-- **The names in the description of a header are words**, whatever its text is. -/
theorem describe_words (name text : String) : ∀ c ∈ (describe name text).classes, ClassWords c :=
  Tree.visit_words ⟨[], []⟩ .translationUnit (fun _ hn => nomatch hn) _ (parse_named _)

end Scaffold.Cpp
