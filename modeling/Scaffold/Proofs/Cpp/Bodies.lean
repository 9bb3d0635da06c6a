import Mathlib.Tactic.Tauto
import Scaffold.Proofs.Cpp.Derivations

/-!
# Bodies in a syntax tree

* `Kind.admits` -- the kinds of bodies that a node of a kind may have;
* `Tree.Housed` -- every body in a tree is admitted by the node around it;
* `Pattern.Bodied` -- what bodies a pattern makes, outside of nodes;
* `Pattern.derives_housed` -- **what a pattern makes is housed** if the bodies of its nodes
  are admitted;
* `parse_housed` -- so the tree of every text is.
-/
namespace Scaffold.Cpp

/-- The kinds of bodies that a node of the kind may have. -/
def Kind.admits : Kind → Kind → Prop
  | .namespaceDefinition, k => k = .declarationList
  | .classSpecifier, k | .structSpecifier, k | .unionSpecifier, k => k = .fieldDeclarationList
  | .functionDefinition, k => k = .compoundStatement ∨ k = .tryStatement
  | .lambda, k => k = .compoundStatement
  | _, _ => True

/-- Every body in the tree is of a kind that the node around it may have. -/
inductive Tree.Housed : Tree → Prop where
  | leaf {k : Kind} {r : Option Role} {lead text : List Char} : Tree.Housed (.leaf k r lead text)
  | node {k : Kind} {r : Option Role} {cs : List Tree}
      (hbodies : ∀ c ∈ cs, c.role = some .body → k.admits c.kind)
      (h : ∀ c ∈ cs, Tree.Housed c) : Tree.Housed (.node k r cs)

/-- The parts of a housed tree. -/
theorem Tree.Housed.parts {t u : Tree} (h : t.Housed) (hu : u ∈ t.children) :
    u.Housed ∧ (u.role = some .body → t.kind.admits u.kind) := by
  cases h with
  | leaf => cases hu
  | node hbodies h => exact ⟨h u hu, hbodies u hu⟩

namespace Pattern

variable {a b : List Tree} {t : Tree} {r : Role} {B B' K : Kind → Prop}

/-! ## 1. Lists of trees -/

/-- The bodies in a list of trees are of the given kinds. -/
def BodiesIn (B : Kind → Prop) (ts : List Tree) : Prop :=
  ∀ t ∈ ts, t.role = some .body → B t.kind

/-- Trees that are housed, with bodies of the given kinds among them. -/
def HousedIn (B : Kind → Prop) (ts : List Tree) : Prop :=
  (∀ t ∈ ts, t.Housed) ∧ BodiesIn B ts

theorem HousedIn.append (ha : HousedIn B a) (hb : HousedIn B b) : HousedIn B (a ++ b) :=
  ⟨List.forall_mem_append.mpr ⟨ha.1, hb.1⟩, List.forall_mem_append.mpr ⟨ha.2, hb.2⟩⟩

theorem HousedIn.left (h : HousedIn B (a ++ b)) : HousedIn B a :=
  ⟨(List.forall_mem_append.mp h.1).1, (List.forall_mem_append.mp h.2).1⟩

theorem HousedIn.right (h : HousedIn B (a ++ b)) : HousedIn B b :=
  ⟨(List.forall_mem_append.mp h.1).2, (List.forall_mem_append.mp h.2).2⟩

theorem HousedIn.mono (h : HousedIn B a) (hB : ∀ k, B k → B' k) : HousedIn B' a :=
  ⟨h.1, fun t ht hbody => hB _ (h.2 t ht hbody)⟩

/-- Plain leaves are no bodies. -/
theorem housedIn_plain (ha : ∀ t ∈ a, Plain t) : HousedIn B a := by
  refine ⟨fun t ht => ?_, fun t ht hbody => ?_⟩ <;> obtain ⟨kind, lead, text, rfl, -⟩ := ha t ht
  · exact .leaf
  · cases hbody

theorem housedIn_singleton (h : t.Housed) (hrole : t.role ≠ some .body) : HousedIn B [t] :=
  ⟨List.forall_mem_singleton.mpr h,
    List.forall_mem_singleton.mpr fun hbody => absurd hbody hrole⟩

/-- A node that plays no part yet. -/
theorem housedIn_node {kind : Kind} (ha : HousedIn kind.admits a) :
    HousedIn B [.node kind none a] :=
  housedIn_singleton (.node ha.2 ha.1) (Option.some_ne_none _).symm

theorem kind_withRole (r : Role) (t : Tree) : (t.withRole r).kind = t.kind := by
  cases t <;> rfl

theorem role_withRole (r : Role) (t : Tree) : (t.withRole r).role = some r := by
  cases t <;> rfl

theorem housed_withRole (h : t.Housed) (r : Role) : (t.withRole r).Housed := by
  cases h with
  | leaf => exact .leaf
  | node hbodies h => exact .node hbodies h

theorem splitLast_last (a : List Tree) :
    (splitLast a).2 = [] ∨ ∃ t ∈ a, (splitLast a).2 = [t] := by
  induction a with
  | nil => exact .inl rfl
  | cons t a ih =>
    cases a with
    | nil => exact .inr ⟨t, List.mem_cons_self, rfl⟩
    | cons u a =>
      rw [splitLast]
      · rcases ih with hnil | ⟨v, hv, hlast⟩
        · exact .inl hnil
        · exact .inr ⟨v, List.mem_cons_of_mem t hv, hlast⟩
      · simp

/-- The last tree in another role is no body. -/
theorem housedIn_splitLast (ha : HousedIn B a) (hr : r ≠ .body) :
    HousedIn B' (roleLast r (splitLast a).2) := by
  rcases splitLast_last a with hnil | ⟨t, ht, hlast⟩
  · rw [hnil]
    exact ⟨List.forall_mem_nil _, List.forall_mem_nil _⟩
  · rw [hlast]
    refine housedIn_singleton (housed_withRole (ha.1 t ht) r) fun hbody => hr ?_
    rw [role_withRole] at hbody
    exact Option.some.inj hbody

/-- The last tree becomes a body only of a kind that is allowed. -/
theorem housedIn_roleLast (ha : HousedIn B a)
    (hlast : r = .body → ∀ t, a.getLast? = some t → B t.kind) : HousedIn B (roleLast r a) := by
  induction a with
  | nil => exact ha
  | cons t a ih =>
    cases a with
    | nil =>
      refine ⟨List.forall_mem_singleton.mpr (housed_withRole (ha.1 t List.mem_cons_self) r), ?_⟩
      refine List.forall_mem_singleton.mpr fun hbody => ?_
      rw [role_withRole] at hbody
      rw [kind_withRole]
      exact hlast (Option.some.inj hbody) t rfl
    | cons u a =>
      rw [roleLast]
      · exact HousedIn.append (a := [t]) (HousedIn.left (b := u :: a) ha)
          (ih (HousedIn.right (a := [t]) ha) hlast)
      · simp

/-! ## 2. Patterns -/

variable {ρ : Type}

section Patterns

variable (bodies ends : ρ → Kind → Prop)

mutual

/-- The last tree that the pattern makes is of the given kinds; `ends` are those of the
rules. Nothing is known of what is neither a node nor a rule. -/
@[simp] def Ends (K : Kind → Prop) : Pattern ρ → Prop
  | .node kind _ => K kind
  | .alts ps => EndsAll K ps
  | .rule x => ∀ k, ends x k → K k
  | _ => ∀ k, K k

/-- The same of all patterns of a list. -/
@[simp] def EndsAll (K : Kind → Prop) : List (Pattern ρ) → Prop
  | [] => True
  | p :: ps => Ends K p ∧ EndsAll K ps

end

/-- The bodies that a shape puts under a node are admitted there, and others are of the
given kinds; `inner` says what kinds of bodies the shape is asked about. -/
def Houses (shape : List Tree → Option Kind) (B : Kind → Prop) (inner : (Kind → Prop) → Prop) :
    Prop :=
  ∃ B', inner B' ∧ ∀ ts, BodiesIn B' ts →
    (∀ kind, shape ts = some kind → BodiesIn kind.admits ts) ∧ (shape ts = none → BodiesIn B ts)

mutual

/-- The bodies that the pattern makes outside of nodes are of the given kinds, and those in
nodes are admitted there; `bodies` are those that the rules make. -/
@[simp] def Bodied : (Kind → Prop) → Pattern ρ → Prop
  | B, .seq ps | B, .alts ps => BodiedAll B ps
  | B, .star p | B, .items p _ => Bodied B p
  | B, .rule x => ∀ k, bodies x k → B k
  | _, .node kind p => Bodied kind.admits p
  | B, .shaped shape p => Houses shape B fun B' => Bodied B' p
  | B, .role r p => Bodied B p ∧ (r = .body → Ends ends B p)
  | B, .grow base r tails => Bodied B base ∧ r ≠ .body ∧ BodiedTails tails
  | _, _ => True

/-- The same of all patterns of a list. -/
@[simp] def BodiedAll : (Kind → Prop) → List (Pattern ρ) → Prop
  | _, [] => True
  | B, p :: ps => Bodied B p ∧ BodiedAll B ps

/-- The bodies that the tails put under their nodes are admitted there. -/
@[simp] def BodiedTails : List (Kind × Pattern ρ) → Prop
  | [] => True
  | (kind, p) :: tails => Bodied kind.admits p ∧ BodiedTails tails

end

end Patterns

variable {bodies ends : ρ → Kind → Prop} {g : ρ → Pattern ρ} {T : Token → Prop} {p : Pattern ρ}
  {ps : List (Pattern ρ)} {tails : List (Kind × Pattern ρ)}

mutual

/-- Nothing is asked of a pattern that may end with everything. -/
theorem ends_of_all (h : ∀ k, K k) : ∀ p : Pattern ρ, Ends ends K p
  | .node kind _ => h kind
  | .alts ps => endsAll_of_all h ps
  | .rule _ => fun k _ => h k
  | .word _ | .oneOf .. | .name .. | .mark _ | .directive .. | .otherDirective .. | .sort ..
  | .group .. | .seq _ | .star _ | .shaped .. | .role .. | .ahead _ | .without _ | .closed ..
  | .angles | .missing | .grow .. | .items .. => h

theorem endsAll_of_all (h : ∀ k, K k) : ∀ ps : List (Pattern ρ), EndsAll ends K ps
  | [] => trivial
  | p :: ps => ⟨ends_of_all h p, endsAll_of_all h ps⟩

end

theorem ends_of_mem (h : EndsAll ends K ps) (hp : p ∈ ps) : Ends ends K p := by
  induction ps with
  | nil => cases hp
  | cons q ps ih =>
    rw [EndsAll] at h
    rcases List.mem_cons.mp hp with rfl | hp
    · exact h.1
    · exact ih h.2 hp

theorem bodied_of_mem (h : BodiedAll bodies ends B ps) (hp : p ∈ ps) : Bodied bodies ends B p := by
  induction ps with
  | nil => cases hp
  | cons q ps ih =>
    rw [BodiedAll] at h
    rcases List.mem_cons.mp hp with rfl | hp
    · exact h.1
    · exact ih h.2 hp

theorem bodied_of_mem_tails {kind : Kind} (h : BodiedTails bodies ends tails)
    (hp : (kind, p) ∈ tails) : Bodied bodies ends kind.admits p := by
  induction tails with
  | nil => cases hp
  | cons t tails ih =>
    rw [BodiedTails] at h
    rcases List.mem_cons.mp hp with rfl | hp
    · exact h.1
    · exact ih h.2 hp

/-- **What a pattern ends with.** -/
theorem derives_ends (hg : ∀ x, Ends ends (ends x) (g x)) (h : Derives g T p a)
    (hp : Ends ends K p) : ∀ t, a.getLast? = some t → K t.kind := by
  induction h generalizing K with
  | node _ _ _ =>
    rw [Ends] at hp
    intro t ht
    rw [List.getLast?_concat] at ht
    rwa [← Option.some.inj ht]
  | alts hmem _ ih =>
    rw [Ends] at hp
    exact ih (ends_of_mem hp hmem)
  | rule _ ih =>
    rw [Ends] at hp
    exact fun t ht => hp _ (ih (hg _) t ht)
  | @token p _ _ _ _ htoken _ _ _ =>
    intro t _
    cases p <;> first | exact hp _ | cases htoken
  | @plain p _ hplain _ =>
    intro t _
    cases p <;> first | exact hp _ | cases hplain
  | _ => exact fun t _ => hp _

/-- **What a pattern makes is housed**, with bodies of the given kinds outside of nodes. -/
theorem derives_housed (hg : ∀ x, Bodied bodies ends (bodies x) (g x))
    (hends : ∀ x, Ends ends (ends x) (g x)) (h : Derives g T p a) (hp : Bodied bodies ends B p) :
    HousedIn B a := by
  induction h generalizing B with
  | token _ hbefore _ _ =>
    exact (housedIn_plain (plain_comments hbefore)).append
      (housedIn_singleton .leaf (Option.some_ne_none _).symm)
  | plain hplain ha => exact housedIn_plain (ha.plain hplain)
  | seq _ _ ih ihmore =>
    rw [Bodied, BodiedAll] at hp
    exact (ih hp.1).append (ihmore (by rw [Bodied]; exact hp.2))
  | alts hmem _ ih =>
    rw [Bodied] at hp
    exact ih (bodied_of_mem hp hmem)
  | star _ _ ih ihmore => exact (ih (by rwa [Bodied] at hp)).append (ihmore hp)
  | rule _ ih =>
    rw [Bodied] at hp
    exact (ih (hg _)).mono hp
  | node hbefore _ ih =>
    rw [Bodied] at hp
    exact (housedIn_plain (plain_comments hbefore)).append (housedIn_node (ih hp))
  | shaped hbefore _ hshape ih =>
    rw [Bodied] at hp
    obtain ⟨B', hinner, hhouses⟩ := hp
    have ha := ih hinner
    exact (housedIn_plain (plain_comments hbefore)).append
      (housedIn_node ⟨ha.1, (hhouses _ ha.2).1 _ hshape⟩)
  | shapeless hbefore _ hshape ih =>
    rw [Bodied] at hp
    obtain ⟨B', hinner, hhouses⟩ := hp
    have ha := ih hinner
    exact (housedIn_plain (plain_comments hbefore)).append ⟨ha.1, (hhouses _ ha.2).2 hshape⟩
  | role h ih =>
    rw [Bodied] at hp
    exact housedIn_roleLast (ih hp.1) fun hbody => derives_ends hends h (hp.2 hbody)
  | base _ ih =>
    rw [Bodied] at hp
    exact ih hp.1
  | @tail _ r _ a kind _ _ _ hmem _ ih ihtail =>
    have ha := ih hp
    rw [Bodied] at hp
    obtain ⟨-, hrole, htails⟩ := hp
    -- what has been read so far is no body of the node that is put around it
    have hlast : HousedIn kind.admits (roleLast r (splitLast a).2) := housedIn_splitLast ha hrole
    rw [← splitLast_append a] at ha
    exact ha.left.append (housedIn_node (hlast.append (ihtail (bodied_of_mem_tails htails hmem))))
  | item _ _ ih ihmore => exact (ih (by rwa [Bodied] at hp)).append (ihmore hp)
  | wrong ha _ ih => exact (housedIn_plain ha).append (ih hp)

end Pattern

/-! ## 3. The grammar -/

namespace Grammar

open Pattern (Bodied BodiedAll BodiedTails Ends EndsAll Houses)

/-- The bodies of functions: blocks, also with handlers. -/
def IsFunctionBody (k : Kind) : Prop := k = .compoundStatement ∨ k = .tryStatement

/-- The bodies that the rules make outside of nodes. -/
def bodies : Rule → Kind → Prop
  | .functionBody, k => IsFunctionBody k
  | _, _ => False

/-- What the rules end with that are used for bodies. -/
def ends : Rule → Kind → Prop
  | .braces, k | .namespaceBody, k => k = .declarationList
  | .memberList, k => k = .fieldDeclarationList
  | .block, k => k = .compoundStatement
  | .tryBlock, k => k = .tryStatement
  | _, _ => True

theorem ends_grammar (x : Rule) : Ends ends (ends x) (grammar x) := by
  cases x
  case braces | namespaceBody | memberList | block | tryBlock => simp [ends, grammar]
  all_goals exact Pattern.ends_of_all (fun _ => trivial) _

variable {B : Kind → Prop} {inner : (Kind → Prop) → Prop}

/-- A shape that puts no bodies under a node but where any may be. -/
theorem houses_open {shape : List Tree → Option Kind}
    (hshape : ∀ ts kind, shape ts = some kind → ∀ k, kind.admits k) (h : inner B) :
    Houses shape B inner :=
  ⟨B, h, fun ts hts => ⟨fun kind heq t _ _ => hshape ts kind heq t.kind, fun _ => hts⟩⟩

@[simp] theorem houses_parameterShape (h : inner B) : Houses parameterShape B inner := by
  refine houses_open (fun ts kind heq k => ?_) h
  rcases parameterShape_kind heq with rfl | rfl | rfl <;> trivial

@[simp] theorem houses_nameShape (h : inner B) : Houses nameShape B inner := by
  refine houses_open (fun ts kind heq k => ?_) h
  rcases nameShape_kind heq with rfl | rfl <;> trivial

@[simp] theorem houses_segmentShape (h : inner B) : Houses segmentShape B inner := by
  refine houses_open (fun ts kind heq k => ?_) h
  rw [segmentShape_kind heq]
  trivial

@[simp] theorem houses_declaredShape (h : inner B) : Houses declaredShape B inner := by
  refine houses_open (fun ts kind heq k => ?_) h
  rcases declaredShape_kind heq with rfl | rfl <;> trivial

@[simp] theorem houses_namespaceShape (h : inner B) : Houses namespaceShape B inner := by
  refine houses_open (fun ts kind heq k => ?_) h
  rw [namespaceShape_kind heq]
  trivial

/-- A class, struct or union has its members for a body. -/
@[simp] theorem houses_classShape (h : inner (· = .fieldDeclarationList)) :
    Houses classShape B inner := by
  refine ⟨_, h, fun ts hts => ⟨fun kind heq => ?_, fun hnone =>
    absurd hnone (Option.some_ne_none _)⟩⟩
  rcases classShape_kind heq with rfl | rfl | rfl <;> exact hts

/-- What has a body is a definition. -/
theorem isDefinition_of_body {ts : List Tree} {t : Tree} (ht : t ∈ ts)
    (hbody : t.role = some .body) : isDefinition ts = true := by
  have hrole : hasRole .body ts = true := List.any_eq_true.mpr ⟨t, ht, by simp [hbody]⟩
  rw [isDefinition, hrole, Bool.true_or]

/-- A shape that makes a function of what has a body. -/
theorem houses_function {shape : List Tree → Option Kind}
    (hshape : ∀ ts, isDefinition ts = true → shape ts = some .functionDefinition)
    (h : inner IsFunctionBody) : Houses shape B inner := by
  refine ⟨_, h, fun ts hts => ⟨fun kind heq t ht hbody => ?_, fun hnone t ht hbody => ?_⟩⟩
  · rw [hshape ts (isDefinition_of_body ht hbody)] at heq
    obtain rfl := Option.some.inj heq
    exact hts t ht hbody
  · rw [hshape ts (isDefinition_of_body ht hbody)] at hnone
    cases hnone

@[simp] theorem houses_memberShape (h : inner IsFunctionBody) : Houses memberShape B inner :=
  houses_function (fun ts hdefinition => by rw [memberShape, if_pos hdefinition]) h

@[simp] theorem houses_constructorShape (h : inner IsFunctionBody) :
    Houses constructorShape B inner :=
  houses_function (fun ts hdefinition => by rw [constructorShape, if_pos hdefinition]) h

@[simp] theorem houses_itemShape (h : inner IsFunctionBody) : Houses itemShape B inner :=
  houses_function (fun ts hdefinition => by rw [itemShape, if_pos hdefinition]) h

@[simp] theorem bodied_marks (texts : List String) :
    BodiedAll bodies ends B (texts.map .mark : List P) := by
  induction texts with
  | nil => simp
  | cons t texts ih => simp [ih]

/-- **The bodies in the nodes of every rule are admitted there.** -/
theorem bodied_grammar (x : Rule) : Bodied bodies ends (bodies x) (grammar x) := by
  cases x <;> simp [grammar, bodies, ends, Kind.admits, IsFunctionBody, opt, plus, sepBy,
    commaList, keyword, colon, equals, parens, branchEnd, conditional, directiveLine, operand,
    includeLine, innerDirective, closing, braced, terminator, strayToken, declaratorTails,
    abstractTails, declaredName, declaratorList, memberDeclarators, aliasDeclaration,
    staticAssertion]

end Grammar

/-- **The tree of every text is housed.** -/
theorem parse_housed (cs : List Char) : (parse cs).Housed := by
  obtain ⟨a, hparse, ha⟩ := parse_derives (T := fun _ => True) cs fun _ _ => trivial
  have hitems : Pattern.Bodied Grammar.bodies Grammar.ends (fun _ => False)
      (.items (.rule .item) (.alts [])) := by simp [Grammar.bodies]
  have hhoused := Pattern.derives_housed Grammar.bodied_grammar Grammar.ends_grammar ha hitems
  rw [hparse]
  exact .node (fun _ _ _ => trivial) hhoused.1

end Scaffold.Cpp
