import Scaffold.Proofs.Cpp.Derivations

/-!
# What holds all over a syntax tree

A fact about the trees of a grammar is told by where trees are made: leaves of tokens,
nodes of what a pattern derives, and roles that are given to what has been read.

* `Tree.Part` -- the parts of a tree;
* `Law` -- what is asked of leaves, of nodes by what is right below them, and of trees by
  the role they play; `Law.Holds`: it is kept all over a tree;
* `Pattern.Lawful` -- a pattern makes leaves, nodes and roles by the law;
* `Pattern.derives_lawful` -- **what a lawful pattern makes keeps the law all over**.
-/
namespace Scaffold.Cpp

/-! ## 1. Parts -/

/-- The parts of a tree: the tree itself, and what is right below a part. -/
inductive Tree.Part (t : Tree) : Tree → Prop where
  | whole : Tree.Part t t
  | inside {u c : Tree} (h : Tree.Part t u) (hc : c ∈ u.children) : Tree.Part t c

/-- A part of a part is a part. -/
theorem Tree.Part.trans {t u v : Tree} (h : t.Part u) (h' : u.Part v) : t.Part v := by
  induction h' with
  | whole => exact h
  | inside _ hc ih => exact .inside ih hc

/-- A part that is not the whole tree lies in one of the trees right below it. -/
theorem Tree.Part.eq_or_below {t u : Tree} (h : t.Part u) :
    u = t ∨ ∃ c ∈ t.children, c.Part u := by
  induction h with
  | whole => exact .inl rfl
  | inside _ hc ih =>
    rcases ih with rfl | ⟨c, hct, hpart⟩
    · exact .inr ⟨_, hc, .whole⟩
    · exact .inr ⟨c, hct, .inside hpart hc⟩

theorem Tree.Part.child {t u v : Tree} {r : Role} (h : t.Part u) (hv : u.child? r = some v) :
    t.Part v :=
  .inside h (List.mem_of_find?_eq_some hv)

@[simp] theorem Tree.role_withRole (r : Role) (t : Tree) : (t.withRole r).role = some r := by
  cases t <;> rfl

@[simp] theorem Tree.text_withRole (r : Role) (t : Tree) : (t.withRole r).text = t.text := by
  cases t <;> rfl

@[simp] theorem Tree.kind_withRole (r : Role) (t : Tree) : (t.withRole r).kind = t.kind := by
  cases t <;> rfl

/-- The first tree in a role plays it. -/
theorem Tree.role_of_child? {t u : Tree} {r : Role} (h : t.child? r = some u) :
    u.role = some r := by
  have hrole := List.find?_some h
  exact eq_of_beq hrole

/-! ## 2. Laws -/

/-- What is asked of the trees of a grammar, wherever they stand. -/
structure Law where
  /-- Of a leaf of a kind with a text. -/
  leaf : Kind → List Char → Prop
  /-- Of the trees right below a node of a kind. -/
  node : Kind → List Tree → Prop
  /-- Of a tree that plays a role. -/
  role : Role → Tree → Prop

namespace Law

variable {L : Law} {t u : Tree} {r : Role} {a b : List Tree}

/-- What is asked of the root of a tree, whatever role it plays. -/
def Root (L : Law) : Tree → Prop
  | .leaf kind _ _ text => L.leaf kind text
  | .node kind _ cs => L.node kind cs

/-- All parts of the tree keep the law. -/
def Holds (L : Law) (t : Tree) : Prop :=
  ∀ u, t.Part u → L.Root u ∧ ∀ r, u.role = some r → L.role r u

theorem holds_iff : L.Holds t ↔ L.Root t ∧ (∀ r, t.role = some r → L.role r t) ∧
    ∀ c ∈ t.children, L.Holds c := by
  constructor
  · intro h
    exact ⟨(h t .whole).1, (h t .whole).2,
      fun c hc u hu => h u (.trans (.inside .whole hc) hu)⟩
  · rintro ⟨hroot, hrole, hbelow⟩ u hu
    rcases hu.eq_or_below with rfl | ⟨c, hc, hcu⟩
    · exact ⟨hroot, hrole⟩
    · exact hbelow c hc u hcu

theorem Holds.part (h : L.Holds t) (hu : t.Part u) : L.Holds u :=
  fun v hv => h v (hu.trans hv)

/-- A leaf that plays no role yet. -/
theorem holds_leaf {kind : Kind} {lead text : List Char} (h : L.leaf kind text) :
    L.Holds (.leaf kind none lead text) :=
  holds_iff.mpr ⟨h, fun _ hr => (nomatch hr), List.forall_mem_nil _⟩

/-- A node that plays no role yet. -/
theorem holds_node {kind : Kind} (h : L.node kind a) (ha : ∀ t ∈ a, L.Holds t) :
    L.Holds (.node kind none a) :=
  holds_iff.mpr ⟨h, fun _ hr => (nomatch hr), ha⟩

/-- A tree in another role. -/
theorem Holds.withRole (h : L.Holds t) (hr : L.role r (t.withRole r)) :
    L.Holds (t.withRole r) := by
  obtain ⟨hroot, -, hbelow⟩ := holds_iff.mp h
  have hrole : ∀ r', (t.withRole r).role = some r' → L.role r' (t.withRole r) := by
    intro r' hr'
    rw [Tree.role_withRole] at hr'
    rwa [← Option.some.inj hr']
  cases t with
  | leaf kind r' lead text => exact holds_iff.mpr ⟨hroot, hrole, hbelow⟩
  | node kind r' cs => exact holds_iff.mpr ⟨hroot, hrole, hbelow⟩

theorem holds_append (ha : ∀ t ∈ a, L.Holds t) (hb : ∀ t ∈ b, L.Holds t) :
    ∀ t ∈ a ++ b, L.Holds t :=
  List.forall_mem_append.mpr ⟨ha, hb⟩

theorem holds_singleton (h : L.Holds t) : ∀ u ∈ [t], L.Holds u :=
  List.forall_mem_singleton.mpr h

/-- The last tree of a list in another role. -/
theorem holds_roleLast (ha : ∀ t ∈ a, L.Holds t)
    (hr : ∀ t, a.getLast? = some t → L.role r (t.withRole r)) :
    ∀ t ∈ Pattern.roleLast r a, L.Holds t := by
  rcases a.eq_nil_or_concat with rfl | ⟨a, t, rfl⟩
  · exact List.forall_mem_nil _
  · rw [List.concat_eq_append] at ha hr ⊢
    obtain ⟨hbefore, ht⟩ := List.forall_mem_append.mp ha
    rw [Pattern.roleLast_concat]
    exact holds_append hbefore (holds_singleton
      ((List.forall_mem_singleton.mp ht).withRole (hr t List.getLast?_concat)))

end Law

/-! ## 3. Lawful patterns -/

namespace Pattern

variable {ρ : Type}

section Lawful

variable (g : ρ → Pattern ρ) (T : Token → Prop) (L : Law)

mutual

/-- The leaves, the nodes and the roles that a pattern makes of tokens with the property `T`
are what the law asks for. -/
@[simp] def Lawful : Pattern ρ → Prop
  | .oneOf kind _ | .name kind _ => ∀ t : Token, T t → t.sort = .word → L.leaf kind t.text
  | .directive kind _ | .otherDirective kind _ | .sort kind _ => ∀ text, L.leaf kind text
  | .seq ps | .alts ps => LawfulAll ps
  | .star p | .items p _ => Lawful p
  | .node kind p => (∀ a, Derives g T p a → L.node kind a) ∧ Lawful p
  | .shaped shape p =>
    (∀ a kind, Derives g T p a → shape a = some kind → L.node kind a) ∧ Lawful p
  | .role r p =>
    (∀ a (t : Tree), Derives g T p a → a.getLast? = some t → L.role r (t.withRole r)) ∧ Lawful p
  | .grow base r tails => Lawful base ∧ (∀ t : Tree, L.role r (t.withRole r)) ∧ LawfulTails r tails
  | _ => True

/-- All patterns of a list are lawful. -/
@[simp] def LawfulAll : List (Pattern ρ) → Prop
  | [] => True
  | p :: ps => Lawful p ∧ LawfulAll ps

/-- All tails are lawful, and so are their nodes around anything. -/
@[simp] def LawfulTails (r : Role) : List (Kind × Pattern ρ) → Prop
  | [] => True
  | (kind, p) :: tails =>
    (∀ a b, Derives g T p b → L.node kind (roleLast r (splitLast a).2 ++ b)) ∧ Lawful p ∧
      LawfulTails r tails

end

end Lawful

variable {g : ρ → Pattern ρ} {T : Token → Prop} {L : Law} {p : Pattern ρ} {a : List Tree}

@[simp] theorem lawful_marks (texts : List String) :
    LawfulAll g T L (texts.map .mark) := by
  induction texts with
  | nil => simp
  | cons text texts ih => simp [ih]

theorem lawful_of_mem {ps : List (Pattern ρ)} (h : LawfulAll g T L ps) (hp : p ∈ ps) :
    Lawful g T L p := by
  induction ps with
  | nil => cases hp
  | cons q ps ih =>
    rw [LawfulAll] at h
    rcases List.mem_cons.mp hp with rfl | hp
    · exact h.1
    · exact ih h.2 hp

theorem lawful_of_mem_tails {kind : Kind} {r : Role} {tails : List (Kind × Pattern ρ)}
    (h : LawfulTails g T L r tails) (hp : (kind, p) ∈ tails) :
    (∀ a b, Derives g T p b → L.node kind (roleLast r (splitLast a).2 ++ b)) ∧
      Lawful g T L p := by
  induction tails with
  | nil => cases hp
  | cons t tails ih =>
    obtain ⟨k, q⟩ := t
    rw [LawfulTails] at h
    rcases List.mem_cons.mp hp with heq | hp
    · obtain ⟨rfl, rfl⟩ := Prod.mk.inj heq
      exact ⟨h.1, h.2.1⟩
    · exact ih h.2.2 hp

/-- The leaf that a lawful pattern makes of a token. -/
theorem lawful_token (hplain : ∀ text, L.leaf .token text) {kind : Kind} {accepts : Token → Bool}
    (hp : Lawful g T L p) (h : p.token? = some (kind, accepts)) {t : Token} (ht : T t)
    (haccepts : accepts t = true) : L.leaf kind t.text := by
  cases p <;> try cases h
  case word => exact hplain t.text
  case oneOf =>
    rw [Lawful] at hp
    exact hp t ht (by simpa using (Bool.and_eq_true_iff.mp haccepts).1)
  case name =>
    rw [Lawful] at hp
    exact hp t ht (by simpa using (Bool.and_eq_true_iff.mp haccepts).1)
  all_goals
    rw [Lawful] at hp
    exact hp t.text

/-- **What a lawful pattern makes keeps the law all over**, if the rules are lawful and
comments, punctuation and errors always are. -/
theorem derives_lawful (hplain : ∀ t, Plain t → L.Root t) (hg : ∀ x, Lawful g T L (g x))
    (h : Derives g T p a) (hp : Lawful g T L p) : ∀ t ∈ a, L.Holds t := by
  have hleaves {a : List Tree} (ha : ∀ t ∈ a, Plain t) : ∀ t ∈ a, L.Holds t := by
    intro t ht
    obtain ⟨kind, lead, text, rfl, -⟩ := ha t ht
    exact Law.holds_leaf (hplain _ (ha _ ht))
  have hcomments {a : List Tree} (ha : ∀ t ∈ a, Comment T t) := hleaves (plain_comments ha)
  induction h with
  | token htoken hbefore ht haccepts =>
    refine Law.holds_append (hcomments hbefore) (Law.holds_singleton (Law.holds_leaf ?_))
    exact lawful_token (fun text => hplain _ (plain_token [] text)) hp htoken ht haccepts
  | plain hmatch ha => exact hleaves (ha.plain hmatch)
  | seq _ _ ih ihmore =>
    rw [Lawful, LawfulAll] at hp
    exact Law.holds_append (ih hp.1) (ihmore (by rw [Lawful]; exact hp.2))
  | alts hmem _ ih =>
    rw [Lawful] at hp
    exact ih (lawful_of_mem hp hmem)
  | star _ _ ih ihmore => exact Law.holds_append (ih (by rwa [Lawful] at hp)) (ihmore hp)
  | rule _ ih => exact ih (hg _)
  | node hbefore h ih =>
    rw [Lawful] at hp
    exact Law.holds_append (hcomments hbefore)
      (Law.holds_singleton (Law.holds_node (hp.1 _ h) (ih hp.2)))
  | shaped hbefore h hshape ih =>
    rw [Lawful] at hp
    exact Law.holds_append (hcomments hbefore)
      (Law.holds_singleton (Law.holds_node (hp.1 _ _ h hshape) (ih hp.2)))
  | shapeless hbefore _ _ ih =>
    rw [Lawful] at hp
    exact Law.holds_append (hcomments hbefore) (ih hp.2)
  | role h ih =>
    rw [Lawful] at hp
    exact Law.holds_roleLast (ih hp.2) fun t ht => hp.1 _ t h ht
  | base _ ih =>
    rw [Lawful] at hp
    exact ih hp.1
  | @tail _ _ _ a _ _ _ _ hmem hb ih ihtail =>
    have ha := ih hp
    rw [Lawful] at hp
    obtain ⟨-, hrole, htails⟩ := hp
    obtain ⟨hnode, htail⟩ := lawful_of_mem_tails htails hmem
    rw [← splitLast_append a] at ha
    obtain ⟨hbefore, hlast⟩ := List.forall_mem_append.mp ha
    exact Law.holds_append hbefore (Law.holds_singleton (Law.holds_node (hnode a _ hb)
      (Law.holds_append (Law.holds_roleLast hlast fun t _ => hrole t) (ihtail htail))))
  | item _ _ ih ihmore => exact Law.holds_append (ih (by rwa [Lawful] at hp)) (ihmore hp)
  | wrong ha _ ih => exact Law.holds_append (hleaves ha) (ih hp)

end Pattern

end Scaffold.Cpp
