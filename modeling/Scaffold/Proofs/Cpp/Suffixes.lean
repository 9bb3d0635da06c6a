import Scaffold.Proofs.Cpp.Declarators
import Scaffold.Proofs.Cpp.Looks
import Scaffold.Proofs.Cpp.Tops

/-!
# What stands behind a type

A declarator without a name is made of pointers with their qualifiers, and then a reference,
the bounds of an array, or nothing.

* `Spell` -- trees that spell some tokens, and in which the walk finds nothing;
* `Layers` -- what stands behind a type; `Layers.tokens`, `Layers.tree?`: its tokens, and the
  declarator that they make;
* `takes_tree` -- **the grammar reads it as this declarator**;
* `Layers.suffix`, `peel_tree` -- **what peeling gives of it**: the bounds come from the last
  one to the first;
* `Layers.around`, `takes_around`, `peel_around` -- the same in front of a name.
-/
namespace Scaffold.Cpp

open Grammar
open Pattern
open Text (isWord)

variable {ts us rest : List Token} {t u : Token} {a b : List Tree} {lead w : List Char} {k : Kind}

/-! ## 1. Trees of tokens -/

/-- The kinds of nodes that the walk over a tree looks for. -/
def Kind.isLoud (k : Kind) : Bool :=
  k == .namespaceDefinition || k == .classSpecifier || k == .structSpecifier || k == .include

/-- A tree in which the walk finds nothing. -/
inductive Tree.Quiet : Tree → Prop where
  | leaf {k r lead text} : Tree.Quiet (.leaf k r lead text)
  | node {k r cs} (hk : k.isLoud = false) (h : ∀ c ∈ cs, Tree.Quiet c) : Tree.Quiet (.node k r cs)

theorem Tree.Quiet.withRole {x : Tree} (h : x.Quiet) (r : Role) : (x.withRole r).Quiet := by
  cases h with
  | leaf => exact .leaf
  | node hk h => exact .node hk h

/-- The same tree in another part, or in none. -/
def Tree.inRole (r : Option Role) : Tree → Tree
  | .leaf k _ lead text => .leaf k r lead text
  | .node k _ cs => .node k r cs

/-- The leaf of a token. -/
def Token.leaf (k : Kind) (t : Token) : Tree := .leaf k none t.lead t.text

@[simp] theorem Token.kind_leaf (k : Kind) (t : Token) : (t.leaf k).kind = k := rfl

@[simp] theorem Token.text_leaf (k : Kind) (t : Token) : (t.leaf k).text = t.text := rfl

/-- The tokens behind another blank space. -/
def relead (lead : List Char) : List Token → List Token
  | [] => []
  | t :: ts => { t with lead := lead } :: ts

/-- The trees are made of the tokens: they spell them, and the walk finds nothing in them. -/
structure Spell (a : List Tree) (ts : List Token) : Prop where
  quiet : ∀ t ∈ a, t.Quiet
  spelling : Tree.spellings a = spelled ts
  text : Tree.texts a = spelled (relead [] ts)
  trees : a ≠ []
  tokens : ts ≠ []

namespace Spell

theorem leaf (k : Kind) (t : Token) : Spell [t.leaf k] [t] where
  quiet := by
    intro u hu
    rw [List.mem_singleton.mp hu]
    exact .leaf
  spelling := by simp [Token.leaf, Tree.spellings, Tree.spelling]
  text := by simp [Token.leaf, Tree.texts, Tree.text, Tree.spellings, relead]
  trees := List.cons_ne_nil _ []
  tokens := List.cons_ne_nil t []

/-- A mark of two characters. -/
theorem leaf₂ (k : Kind) (lead : List Char) (c d : Char) :
    Spell [.leaf k none lead [c, d]] [markToken lead c, markToken [] d] where
  quiet := by
    intro u hu
    rw [List.mem_singleton.mp hu]
    exact .leaf
  spelling := by simp [Tree.spellings, Tree.spelling]
  text := by simp [Tree.texts, Tree.text, Tree.spellings, relead]
  trees := List.cons_ne_nil _ []
  tokens := List.cons_ne_nil _ _

theorem append (h : Spell a ts) (h' : Spell b us) : Spell (a ++ b) (ts ++ us) where
  quiet := List.forall_mem_append.mpr ⟨h.quiet, h'.quiet⟩
  spelling := by rw [Tree.spellings_append, h.spelling, h'.spelling, spelled_append]
  text := by
    obtain ⟨t, ts, rfl⟩ := List.exists_cons_of_ne_nil h.tokens
    rw [Tree.texts_append h.trees, h.text, h'.spelling]
    simp [relead]
  trees := by simp [h.trees]
  tokens := by simp [h.tokens]

theorem cons {x : Tree} (h : Spell [x] ts) (h' : Spell b us) : Spell (x :: b) (ts ++ us) :=
  h.append h'

/-- Any number of leaves behind some trees. -/
theorem leaves (h : Spell a ts) (k : Kind) (us : List Token) :
    Spell (a ++ us.map (Token.leaf k)) (ts ++ us) := by
  induction us generalizing a ts with
  | nil => simpa using h
  | cons u us ih =>
    have hfirst := ih (h.append (leaf k u))
    simpa using hfirst

theorem node {r : Option Role} (hk : k.isLoud = false) (h : Spell a ts) :
    Spell [.node k r a] ts where
  quiet := by
    intro u hu
    rw [List.mem_singleton.mp hu]
    exact .node hk h.quiet
  spelling := by simp [Tree.spellings, Tree.spelling, h.spelling]
  text := by simp [Tree.texts, Tree.text, Tree.spellings, h.text]
  trees := List.cons_ne_nil _ []
  tokens := h.tokens

theorem withRole {x : Tree} (h : Spell [x] ts) (r : Role) : Spell [x.withRole r] ts where
  quiet := by
    intro u hu
    rw [List.mem_singleton.mp hu]
    exact (h.quiet x (List.mem_singleton_self x)).withRole r
  spelling := by
    rw [← h.spelling]
    cases x <;> rfl
  text := by
    rw [← h.text]
    cases x <;> rfl
  trees := List.cons_ne_nil _ []
  tokens := h.tokens

end Spell

theorem sees_mark {c : Char} : Sees [.mark c] (markToken lead c :: ts) := sees_one ⟨rfl, rfl⟩

theorem ahead_mark {c : Char} {looks : List Look} (h : .mark c ∈ looks) :
    Ahead looks (markToken lead c :: ts) := ⟨_, h, sees_mark⟩

/-- A pattern takes a mark at the front. -/
theorem takes_mark {text : String} {c : Char} (htext : text.toList = [c]) :
    Takes grammar (.mark text) (markToken lead c :: rest)
      [(markToken lead c).leaf .token] rest := by
  have hts : splitComments (markToken lead c :: rest) = ([], markToken lead c :: rest) := rfl
  exact .mark htext hts rfl rfl

/-! ## 2. Pointers, references and bounds -/

/-- What is written behind a type: pointers with their qualifiers, and then a reference, the
bounds of an array, or nothing. -/
inductive Layers where
  | nil
  | lvalue (lead : List Char)
  | rvalue (lead : List Char)
  | bounds (s : List Char) (ss : List (List Char))
  | pointer (lead : List Char) (qualifiers : List Token) (inner : Layers)

namespace Layers

/-- The tokens. -/
def tokens : Layers → List Token
  | nil => []
  | lvalue lead => [markToken lead '&']
  | rvalue lead => [markToken lead '&', markToken [] '&']
  | bounds s ss => (s :: ss).flatMap bracketTokens
  | pointer lead qs inner => markToken lead '*' :: (qs ++ inner.tokens)

/-- The qualifiers are such words. -/
def Valid : Layers → Prop
  | nil | lvalue _ | rvalue _ | bounds .. => True
  | pointer _ qs inner => (∀ q ∈ qs, (Look.word qualifierWords).Fits q) ∧ inner.Valid

/-- The declarator without a name. -/
def tree? : Layers → Option Tree
  | nil => none
  | lvalue lead => some (.node .abstractReferenceDeclarator none [(markToken lead '&').leaf .token])
  | rvalue lead =>
    some (.node .abstractReferenceDeclarator none [.leaf .token none lead ['&', '&']])
  | bounds s ss => some (arrayTree none (s :: ss).reverse)
  | pointer lead qs inner => some (.node .abstractPointerDeclarator none
      ((markToken lead '*').leaf .token :: (qs.map (Token.leaf .typeQualifier) ++
        (inner.tree?.map (·.withRole .declarator)).toList)))

/-- Behind a declarator without a name. -/
def ends : List Look := [.mark ',', .mark ')', .mark '>']

/-- How pointers, references and bounds begin, or what is behind them. -/
def begins (looks : List Look) : List Look := .mark '*' :: .mark '&' :: .mark '[' :: looks

theorem ahead_tokens (L : Layers) {looks : List Look} (h : Ahead looks rest) :
    Ahead (begins looks) (L.tokens ++ rest) := by
  cases L with
  | nil =>
    obtain ⟨l, hl, hs⟩ := h
    exact ⟨l, by simp [begins, hl], hs⟩
  | lvalue lead => exact ahead_mark (by simp [begins])
  | rvalue lead => exact ahead_mark (by simp [begins])
  | bounds s ss => exact ahead_mark (by simp [begins])
  | pointer lead qs inner => exact ahead_mark (by simp [begins])

/-- Qualifiers in front of something. -/
theorem begins_qualifiers {words : List String} {qs : List Token}
    (hqs : ∀ q ∈ qs, (Look.word words).Fits q) {looks : List Look} (h : Begins looks ts) :
    Begins (.word words :: looks) (qs ++ ts) := by
  cases qs with
  | nil =>
    obtain ⟨t, us, rfl, l, hl, ht⟩ := h
    exact ⟨t, us, rfl, l, List.mem_cons_of_mem _ hl, ht⟩
  | cons q qs => exact ⟨q, _, rfl, _, List.mem_cons_self, hqs q List.mem_cons_self⟩

theorem ahead_qualifiers {qs : List Token} (hqs : ∀ q ∈ qs, (Look.word qualifierWords).Fits q)
    {looks : List Look} (h : Ahead looks rest) :
    Ahead (.word qualifierWords :: looks) (qs ++ rest) := by
  cases qs with
  | nil =>
    obtain ⟨l, hl, hs⟩ := h
    exact ⟨l, List.mem_cons_of_mem _ hl, hs⟩
  | cons q qs => exact ahead_cons List.mem_cons_self (hqs q List.mem_cons_self)

/-- The mark of two characters. -/
theorem takes_ampersands (lead : List Char) (rest : List Token) :
    Takes grammar (.mark "&&") (markToken lead '&' :: markToken [] '&' :: rest)
      [.leaf .token none lead ['&', '&']] rest := ⟨1, fun _ => rfl⟩

theorem takes_qualifiers {qs : List Token} (hqs : ∀ q ∈ qs, (Look.word qualifierWords).Fits q)
    (hrest : Fails grammar (.rule .qualifier) rest) :
    Takes grammar (.star (.rule .qualifier)) (qs ++ rest) (qs.map (Token.leaf .typeQualifier))
      rest := by
  refine .star_map (fun q hq us => .rule (.first ?_)) hrest
  exact takes_look rfl (hqs q hq) (by decide)

/-- Further bounds go around what has been read. -/
theorem grows_bounds (ss : List (List Char)) {l : List (List Char)} (hl : l ≠ [])
    (hrest : Ahead ends rest) :
    ∃ n, Grows grammar n .declarator abstractTails [arrayTree none l]
      (ss.flatMap bracketTokens ++ rest) [arrayTree none (ss.reverse ++ l)] rest := by
  induction ss generalizing l with
  | nil => exact grows_nil (fails_tails_of_ahead hrest (by decide))
  | cons s ss ih =>
    obtain ⟨n, hn⟩ := ih (List.cons_ne_nil s l)
    rw [List.flatMap_cons, List.append_assoc, List.reverse_cons, List.append_assoc]
    refine ⟨max n 80 + 1, .step (fun m => ?_) (hn.mono (Nat.le_max_left n 80))⟩
    obtain ⟨j, hj⟩ := Nat.exists_eq_add_of_le' (Nat.le_max_right n 80)
    rw [hj, ← Nat.add_assoc]
    exact step_array (m + j) s hl _

/-- Bounds are read as the declarator of an array without a name. -/
theorem takes_bounds (s : List Char) (ss : List (List Char)) (hrest : Ahead ends rest) :
    Takes grammar (.rule .abstractDeclarator) ((s :: ss).flatMap bracketTokens ++ rest)
      [arrayTree none (s :: ss).reverse] rest := by
  rw [List.flatMap_cons, List.append_assoc, List.reverse_cons]
  have hbase : Takes grammar (.rule .abstractBase) (bracketTokens s ++
      (ss.flatMap bracketTokens ++ rest)) [arrayTree none [s]] (ss.flatMap bracketTokens ++ rest) :=
    ⟨90, reads_base s _⟩
  exact takes_alternative 2 rfl rfl sees_mark (by decide)
    (hbase.grow (grows_bounds ss (List.cons_ne_nil s []) hrest))

/-- The parts of a declarator of a pointer. -/
theorem takes_pointer (lead : List Char) {p : P} {qs : List Token}
    (hqs : ∀ q ∈ qs, (Look.word qualifierWords).Fits q)
    (hword : Fails grammar (keyword pointerWords) (qs ++ ts))
    (hqualifier : Fails grammar (.rule .qualifier) ts) (hp : Takes grammar p ts a rest) :
    Takes grammar (.seq [.mark "*", .star (keyword pointerWords), .star (.rule .qualifier), p])
      (markToken lead '*' :: (qs ++ ts))
      ((markToken lead '*').leaf .token :: (qs.map (Token.leaf .typeQualifier) ++ a)) rest :=
  .cons (takes_mark rfl) (.skip (.star_nil hword)
    (.append (takes_qualifiers hqs hqualifier) hp.last))

variable {x : Tree}

theorem tokens_of_none {L : Layers} (h : L.tree? = none) : L.tokens = [] ∧ L = nil := by
  cases L with
  | nil => exact ⟨rfl, rfl⟩
  | _ => cases h

/-- Nothing is read as a declarator without a name where there is none. -/
theorem fails_abstract (hrest : Ahead ends rest) : Fails grammar (.rule .abstractDeclarator) rest :=
  fails_of_ahead hrest (by decide)

/-- The mark of a reference, and no second one. -/
theorem takes_lvalue (lead : List Char) (hrest : Ahead (.name :: ends) rest) :
    Takes grammar (.alts [.mark "&&", .mark "&"]) (markToken lead '&' :: rest)
      [(markToken lead '&').leaf .token] rest :=
  .next (fails_of_ahead₂ (l := .mark '&') ⟨rfl, rfl⟩ hrest (by decide))
    (.first (takes_mark rfl))

theorem takes_rvalue (lead : List Char) (rest : List Token) :
    Takes grammar (.alts [.mark "&&", .mark "&"]) (markToken lead '&' :: markToken [] '&' :: rest)
      [.leaf .token none lead ['&', '&']] rest := .first (takes_ampersands lead rest)

/-- A declarator that may be left out. -/
theorem takes_optional {L : Layers} (hrest : Ahead ends rest) (h : ∀ x, L.tree? = some x →
      Takes grammar (.rule .abstractDeclarator) (L.tokens ++ rest) [x] rest) :
    Takes grammar (opt (.role .declarator (.rule .abstractDeclarator))) (L.tokens ++ rest)
      (L.tree?.map (·.withRole .declarator)).toList rest := by
  cases hx : L.tree? with
  | none =>
    rw [(tokens_of_none hx).1]
    exact .next (.role (fails_abstract hrest)) (.first .nil)
  | some x => exact .first (h x hx).role

/-- **A pointer, a reference or bounds are read as a declarator without a name.** -/
theorem takes_tree {L : Layers} (hL : L.Valid) (hx : L.tree? = some x) (hrest : Ahead ends rest) :
    Takes grammar (.rule .abstractDeclarator) (L.tokens ++ rest) [x] rest := by
  induction L generalizing x with
  | nil => cases hx
  | lvalue lead =>
    obtain rfl := Option.some.inj hx
    refine takes_alternative 1 rfl rfl sees_mark
      (by decide) (.node rfl ?_)
    exact .cons (takes_lvalue lead (hrest.mono fun _ => List.mem_cons_of_mem _))
      (.last (.next (fails_abstract hrest) (.first .nil)))
  | rvalue lead =>
    obtain rfl := Option.some.inj hx
    refine takes_alternative 1 rfl rfl sees_mark
      (by decide) (.node rfl ?_)
    exact .cons (takes_rvalue lead rest)
      (.last (.next (fails_abstract hrest) (.first .nil)))
  | bounds s ss =>
    obtain rfl := Option.some.inj hx
    exact takes_bounds s ss hrest
  | pointer lead qs inner ih =>
    obtain rfl := Option.some.inj hx
    obtain ⟨hqs, hinner⟩ := hL
    have hinside := inner.ahead_tokens hrest
    have hparts := takes_pointer lead hqs
      (fails_of_ahead (ahead_qualifiers hqs hinside) (by decide))
      (fails_of_ahead hinside (by decide)) (takes_optional hrest fun x hx => ih hinner hx)
    rw [← List.append_assoc] at hparts
    exact takes_alternative 0 rfl rfl sees_mark rfl
      (.node rfl hparts)

theorem spell_bracket (s : List Char) : Spell (bracketTrees s) (bracketTokens s) := by
  have hopen : Spell [.leaf .token none [] ['[']] [markToken [] '['] :=
    .leaf .token (markToken [] '[')
  have hclose : Spell [.leaf .token none [] [']']] [markToken [] ']'] :=
    .leaf .token (markToken [] ']')
  cases s with
  | nil => exact hopen.cons hclose
  | cons c s =>
    exact hopen.cons ((Spell.node rfl (.leaf .numberLiteral (numberToken [] (c :: s)))).cons hclose)

theorem spell_arrays (r : Option Role) {l : List (List Char)} (hl : l ≠ []) :
    Spell [arrayTree r l] (l.reverse.flatMap bracketTokens) := by
  induction l generalizing r with
  | nil => exact absurd rfl hl
  | cons s l ih =>
    rw [List.reverse_cons, List.flatMap_append, List.flatMap_singleton]
    by_cases h : l = []
    · subst h
      exact .node rfl (spell_bracket s)
    · have hparts := (ih (some .declarator) h).cons (spell_bracket s)
      rw [← arrayParts_cons s h] at hparts
      exact .node rfl hparts

theorem spell_tree {L : Layers} (hx : L.tree? = some x) : Spell [x] L.tokens := by
  induction L generalizing x with
  | nil => cases hx
  | lvalue lead =>
    obtain rfl := Option.some.inj hx
    exact .node rfl (.leaf .token (markToken lead '&'))
  | rvalue lead =>
    obtain rfl := Option.some.inj hx
    exact .node rfl (.leaf₂ .token lead '&' '&')
  | bounds s ss =>
    obtain rfl := Option.some.inj hx
    have harrays := spell_arrays none (l := (s :: ss).reverse) (by simp)
    rwa [List.reverse_reverse] at harrays
  | pointer lead qs inner ih =>
    obtain rfl := Option.some.inj hx
    have hfront := (Spell.leaf .token (markToken lead '*')).leaves .typeQualifier qs
    refine .node rfl ?_
    cases hinner : inner.tree? with
    | none =>
      rw [tokens, (tokens_of_none hinner).1, List.append_nil]
      simpa using hfront
    | some y => exact hfront.append ((ih hinner).withRole .declarator)

/-- What the declarator adds to a type. -/
def suffix : Layers → List Char
  | nil => []
  | lvalue _ => ['&']
  | rvalue _ => ['&', '&']
  | bounds s ss => dimensions (s :: ss).reverse
  | pointer _ qs inner => '*' :: (qs.flatMap (' ' :: ·.text) ++ inner.suffix)

theorem pointerQualifiers_leaves (qs : List Token) :
    Tree.pointerQualifiers (qs.map (Token.leaf .typeQualifier)) = qs.flatMap (' ' :: ·.text) := by
  induction qs with
  | nil => rfl
  | cons q qs ih =>
    rw [List.flatMap_cons, ← ih]
    rfl

theorem peelRole_leaves {r : Role} (qs : List Token) (b : List Tree) :
    Tree.peelRole r (qs.map (Token.leaf k) ++ b) = Tree.peelRole r b := by
  induction qs with
  | nil => rfl
  | cons q qs ih => exact ih

/-- **Peeling takes a pointer off.** -/
theorem peel_pointer {kind : Kind} (hkind : kind = .pointerDeclarator ∨
    kind = .abstractPointerDeclarator) (r : Option Role) (lead : List Char) (qs : List Token)
    (hb : Tree.pointerQualifiers b = []) :
    (Tree.node kind r ((markToken lead '*').leaf .token ::
        (qs.map (Token.leaf .typeQualifier) ++ b))).peel =
      ⟨(Tree.peelRole .declarator b).inner,
        '*' :: (qs.flatMap (' ' :: ·.text) ++ (Tree.peelRole .declarator b).suffix)⟩ := by
  have hqualifiers : Tree.pointerQualifiers ((markToken lead '*').leaf .token ::
      (qs.map (Token.leaf .typeQualifier) ++ b)) = qs.flatMap (' ' :: ·.text) := by
    rw [← pointerQualifiers_leaves]
    unfold Tree.pointerQualifiers at hb ⊢
    rw [List.flatMap_cons, List.flatMap_append, hb, List.append_nil]
    rfl
  have hinner : Tree.peelRole .declarator ((markToken lead '*').leaf .token ::
      (qs.map (Token.leaf .typeQualifier) ++ b)) = Tree.peelRole .declarator b :=
    peelRole_leaves qs b
  rcases hkind with rfl | rfl <;>
  · rw [Tree.peel, hqualifiers, hinner]
    rfl

/-- The kinds of declarators without a name. -/
theorem kind_tree {L : Layers} (hx : L.tree? = some x) : x.kind = .abstractPointerDeclarator ∨
    x.kind = .abstractReferenceDeclarator ∨ x.kind = .abstractArrayDeclarator := by
  cases L with
  | nil => cases hx
  | lvalue _ | rvalue _ =>
    obtain rfl := Option.some.inj hx
    exact .inr (.inl rfl)
  | bounds _ _ =>
    obtain rfl := Option.some.inj hx
    exact .inr (.inr rfl)
  | pointer _ _ _ =>
    obtain rfl := Option.some.inj hx
    exact .inl rfl

/-- **Peeling gives what the declarator adds**: its bounds from the last one to the first. -/
theorem peel_tree {L : Layers} (hx : L.tree? = some x) (r : Role) :
    (x.withRole r).peel = ⟨none, L.suffix⟩ := by
  induction L generalizing x r with
  | nil => cases hx
  | lvalue lead =>
    obtain rfl := Option.some.inj hx
    rfl
  | rvalue lead =>
    obtain rfl := Option.some.inj hx
    rfl
  | bounds s ss =>
    obtain rfl := Option.some.inj hx
    exact peel_arrays (some r) (by simp)
  | pointer lead qs inner ih =>
    obtain rfl := Option.some.inj hx
    cases hinner : inner.tree? with
    | none =>
      rw [(tokens_of_none hinner).2]
      exact peel_pointer (.inr rfl) (some r) lead qs rfl
    | some y =>
      have hpeel := ih hinner .declarator
      have hrole : Tree.peelRole .declarator [y.withRole .declarator] =
          (y.withRole .declarator).peel := by
        rw [Tree.peelRole, Tree.role_withRole]
        rfl
      have hb : Tree.pointerQualifiers [y.withRole .declarator] = [] := by
        have hkind : y.kind ≠ .typeQualifier := by
          rcases kind_tree hinner with h | h | h <;> rw [h] <;> decide
        simp [Tree.pointerQualifiers, hkind]
      have hone := peel_pointer (.inr rfl) (some r) lead qs hb
      rw [hrole, hpeel] at hone
      exact hone

end Layers

/-! ## 3. In front of a name -/

namespace Layers

variable {x d : Tree}

/-- There are no bounds. Those of a declarator with a name stand behind it. -/
def Boundless : Layers → Prop
  | nil | lvalue _ | rvalue _ => True
  | bounds .. => False
  | pointer _ _ inner => inner.Boundless

/-- The declarator around what is declared. -/
def around : Layers → Tree → Tree
  | nil, d | bounds .., d => d
  | lvalue lead, d => .node .referenceDeclarator none [(markToken lead '&').leaf .token, d]
  | rvalue lead, d => .node .referenceDeclarator none [.leaf .token none lead ['&', '&'], d]
  | pointer lead qs inner, d => .node .pointerDeclarator none
      ((markToken lead '*').leaf .token :: (qs.map (Token.leaf .typeQualifier) ++
        [(inner.around d).withRole .declarator]))

/-- No pointer is read where a reference is. -/
theorem fails_pointer {kind : Kind} {ps : List P} (lead : List Char) (ts : List Token) :
    Fails grammar (.node kind (.seq (.mark "*" :: ps))) (markToken lead '&' :: ts) :=
  .node (.cons (fails_of_glance sees_mark (by decide)))

/-- **Pointers and references in front of what is declared are read around it.** -/
theorem takes_around {L : Layers} (hL : L.Valid) (hbounds : L.Boundless) {name : Kind}
    (hname : Sees [.name] ts) (hd : Takes grammar (.rule (.declarator name)) ts [d] rest) :
    Takes grammar (.rule (.declarator name)) (L.tokens ++ ts) [L.around d] rest := by
  have hcall {us : List Token} (h : Ahead [.mark '&', .mark '*'] us) :
      Takes grammar (.star (keyword callWords)) us [] us :=
    .star_nil (fails_of_ahead h (by decide))
  have hseen : Ahead [.name] ts := ⟨_, List.mem_singleton_self _, hname⟩
  induction L with
  | nil => exact hd
  | bounds _ _ => exact hbounds.elim
  | lvalue lead =>
    refine .rule (.skip (hcall (ahead_mark (by simp)))
      (.last (.next (fails_pointer lead _) (.first (.node rfl ?_)))))
    exact .cons (takes_lvalue lead (hseen.mono (by simp))) hd.last
  | rvalue lead =>
    refine .rule (.skip (hcall (ahead_mark (by simp)))
      (.last (.next (fails_pointer lead _) (.first (.node rfl ?_)))))
    exact .cons (takes_rvalue lead ts) hd.last
  | pointer lead qs inner ih =>
    obtain ⟨hqs, hinner⟩ := hL
    refine .rule (.skip (hcall (ahead_mark (by simp)))
      (.last (.first ?_)))
    have hinside := inner.ahead_tokens hseen
    have hparts := takes_pointer lead hqs
      (fails_of_ahead (ahead_qualifiers hqs hinside) (by decide))
      (fails_of_ahead hinside (by decide))
      ((ih hinner hbounds).role (r := .declarator))
    rw [← List.append_assoc] at hparts
    exact .node rfl hparts

theorem quiet_around (L : Layers) (hd : d.Quiet) : (L.around d).Quiet := by
  induction L with
  | nil | bounds _ _ => exact hd
  | lvalue lead | rvalue lead =>
    exact .node rfl (List.forall_mem_cons.mpr ⟨.leaf, List.forall_mem_singleton.mpr hd⟩)
  | pointer lead qs inner ih =>
    have hqs : ∀ t ∈ qs.map (Token.leaf .typeQualifier), t.Quiet := by
      intro t ht
      obtain ⟨q, -, rfl⟩ := List.mem_map.mp ht
      exact .leaf
    exact .node rfl (List.forall_mem_cons.mpr ⟨.leaf, List.forall_mem_append.mpr
      ⟨hqs, List.forall_mem_singleton.mpr (ih.withRole .declarator)⟩⟩)

/-- A declarator around another is a pointer or a reference. -/
theorem kind_around (L : Layers) (d : Tree) : (L.around d).kind = d.kind ∨
    (L.around d).kind = .referenceDeclarator ∨ (L.around d).kind = .pointerDeclarator := by
  cases L with
  | nil | bounds _ _ => exact .inl rfl
  | lvalue _ | rvalue _ => exact .inr (.inl rfl)
  | pointer _ _ _ => exact .inr (.inr rfl)

theorem added?_inRole (r : Option Role) (d : Tree) : (d.inRole r).added? = d.added? := by
  cases d <;> rfl

/-- The mark in front is not what a reference refers to. -/
theorem peelNamed_mark (hx : x.isNamed = false) (hd : d.isNamed = true) :
    Tree.peelNamed [x, d] = d.peel := by
  rw [Tree.peelNamed, if_neg (by simp [hx]), Tree.peelNamed, if_pos hd]

/-- **Peeling gives what is declared**, in the role that it has there, and what stands around it. -/
theorem peel_around {L : Layers} (hbounds : L.Boundless) (hd : d.added? = none)
    (hnamed : d.isNamed = true) (hkind : d.kind ≠ .typeQualifier) (r : Role) :
    ∃ r', ((L.around d).withRole r).peel = ⟨some (d.inRole r'), L.suffix⟩ := by
  induction L generalizing r with
  | nil =>
    refine ⟨some r, ?_⟩
    have hrole : d.withRole r = d.inRole (some r) := by cases d <;> rfl
    exact hrole ▸ Tree.peel_of_none ((added?_inRole _ d).trans hd)
  | bounds _ _ => exact hbounds.elim
  | lvalue lead | rvalue lead =>
    refine ⟨d.role, ?_⟩
    have hrole : d.inRole d.role = d := by cases d <;> rfl
    rw [hrole, around, Tree.withRole, Tree.peel, peelNamed_mark rfl hnamed, Tree.peel_of_none hd]
    rfl
  | pointer lead qs inner ih =>
    obtain ⟨r', ih⟩ := ih hbounds .declarator
    refine ⟨r', ?_⟩
    have hb : Tree.pointerQualifiers [(inner.around d).withRole .declarator] = [] := by
      have hnone : (inner.around d).kind ≠ .typeQualifier := by
        rcases inner.kind_around d with h | h | h <;> rw [h]
        · exact hkind
        · decide
        · decide
      simp [Tree.pointerQualifiers, hnone]
    have hrole : Tree.peelRole .declarator [(inner.around d).withRole .declarator] =
        ((inner.around d).withRole .declarator).peel := by
      rw [Tree.peelRole, Tree.role_withRole]
      rfl
    have hone := peel_pointer (.inl rfl) (some r) lead qs hb
    rw [hrole, ih] at hone
    exact hone

end Layers

end Scaffold.Cpp
