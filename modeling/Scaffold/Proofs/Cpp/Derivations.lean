import Scaffold.Cpp.Grammar
import Scaffold.Proofs.Cpp.Matching

/-!
# What a pattern can make

A match makes ordered choices, looks ahead and counts its nesting. What it makes of tokens
can be told without that.

* `Plain`, `Comment` -- comments, punctuation and errors, and the comments of a text alone;
* `Derives` -- the lists of trees that a pattern can make, by one rule for each way to
  match; `Written`: what is made of punctuation and of nothing;
* `run_derives` -- **every match makes one of them**;
* `derives_seq` and others -- what a pattern of each form derives;
* `parse_derives` -- so the tree of every text is made of a list that the items derive;
* `memberShape_kind` and others -- the kinds of nodes that the shapes of the grammar ask for.

What is true of all trees of a grammar is an induction on these rules.
-/
namespace Scaffold.Cpp

namespace Pattern

variable {ρ : Type}

/-! ## 1. Leaves -/

/-- A comment, a keyword, a punctuation mark or an error. -/
def Plain (t : Tree) : Prop :=
  ∃ kind lead text, t = .leaf kind none lead text ∧
    (kind = .comment ∨ kind = .token ∨ kind = .error)

/-- A comment among the tokens with the property `T`, as a leaf. -/
def Comment (T : Token → Prop) (c : Tree) : Prop :=
  ∃ t : Token, T t ∧ t.sort = .comment ∧ c = .leaf .comment none t.lead t.text

theorem Comment.plain {T : Token → Prop} {c : Tree} (h : Comment T c) : Plain c := by
  obtain ⟨t, -, -, rfl⟩ := h
  exact ⟨_, _, _, rfl, .inl rfl⟩

/-- The kind of the leaf that a pattern makes of a token, and the tokens that it takes. -/
def token? : Pattern ρ → Option (Kind × (Token → Bool))
  | word text => some (.token, fun t => t.sort == .word && t.text == text.toList)
  | oneOf kind texts =>
    some (kind, fun t => t.sort == .word && texts.contains (String.ofList t.text))
  | name kind reserved =>
    some (kind, fun t => t.sort == .word && !reserved.contains (String.ofList t.text))
  | directive kind names => some (kind, fun t =>
      match t.sort with
      | .directive label => names.contains (String.ofList label)
      | _ => false)
  | otherDirective kind names => some (kind, fun t =>
      match t.sort with
      | .directive label => !names.contains (String.ofList label)
      | _ => false)
  | sort kind wanted => some (kind, fun t => t.sort == wanted)
  | _ => none

/-- The pattern can match with nothing but plain leaves. -/
def isPlain : Pattern ρ → Bool
  | mark _ | group .. | seq [] | star _ | ahead _ | without _ | closed .. | angles | missing
  | items .. => true
  | _ => false

/-- What a pattern makes that matches with plain leaves: punctuation behind comments, a
bracket from its opener to its closer, an error where something is missing, the comments at
the end of some items, and otherwise nothing. -/
def Written (T : Token → Prop) : Pattern ρ → List Tree → Prop
  | mark text, a => ∃ before lead, (∀ c ∈ before, Comment T c) ∧
      a = before ++ [.leaf .token none lead text.toList]
  | group opener closer, a => ∃ before lead inside lead', (∀ c ∈ before, Comment T c) ∧
      (∀ t ∈ inside, Plain t) ∧ a = before ++
        .leaf .token none lead [opener] :: (inside ++ [.leaf .token none lead' [closer]])
  | missing, a => a = [.leaf .error none [] []]
  | items .., a => ∀ c ∈ a, Comment T c
  | _, a => a = []

/-- The lists of trees that a pattern can make of tokens with the property `T`. -/
inductive Derives (g : ρ → Pattern ρ) (T : Token → Prop) : Pattern ρ → List Tree → Prop where
  | token {p kind accepts before t} (hp : p.token? = some (kind, accepts))
      (hbefore : ∀ c ∈ before, Comment T c) (ht : T t) (haccepts : accepts t = true) :
      Derives g T p (before ++ [.leaf kind none t.lead t.text])
  | plain {p a} (hp : p.isPlain = true) (ha : Written T p a) : Derives g T p a
  | seq {p ps a b} (hp : Derives g T p a) (hps : Derives g T (.seq ps) b) :
      Derives g T (.seq (p :: ps)) (a ++ b)
  | alts {p ps a} (hmem : p ∈ ps) (hp : Derives g T p a) : Derives g T (.alts ps) a
  | star {p a b} (hp : Derives g T p a) (hmore : Derives g T (.star p) b) :
      Derives g T (.star p) (a ++ b)
  | rule {x a} (hx : Derives g T (g x) a) : Derives g T (.rule x) a
  | node {kind p before a} (hbefore : ∀ c ∈ before, Comment T c) (hp : Derives g T p a) :
      Derives g T (.node kind p) (before ++ [.node kind none a])
  | shaped {shape p kind before a} (hbefore : ∀ c ∈ before, Comment T c) (hp : Derives g T p a)
      (hshape : shape a = some kind) :
      Derives g T (.shaped shape p) (before ++ [.node kind none a])
  | shapeless {shape p before a} (hbefore : ∀ c ∈ before, Comment T c) (hp : Derives g T p a)
      (hshape : shape a = none) : Derives g T (.shaped shape p) (before ++ a)
  | role {r p a} (hp : Derives g T p a) : Derives g T (.role r p) (roleLast r a)
  | base {base r tails a} (hbase : Derives g T base a) : Derives g T (.grow base r tails) a
  | tail {base r tails a kind p b} (ha : Derives g T (.grow base r tails) a)
      (hmem : (kind, p) ∈ tails) (hp : Derives g T p b) :
      Derives g T (.grow base r tails)
        ((splitLast a).1 ++ [.node kind none (roleLast r (splitLast a).2 ++ b)])
  | item {item stop a b} (hitem : Derives g T item a) (hmore : Derives g T (.items item stop) b) :
      Derives g T (.items item stop) (a ++ b)
  | wrong {item stop a b} (ha : ∀ t ∈ a, Plain t) (hmore : Derives g T (.items item stop) b) :
      Derives g T (.items item stop) (a ++ b)

/-! ## 2. Matching leaves -/

variable {g : ρ → Pattern ρ} {T : Token → Prop} {p : Pattern ρ} {n : Nat} {ts rest : List Token}
  {a b : List Tree}

theorem plain_append (ha : ∀ t ∈ a, Plain t) (hb : ∀ t ∈ b, Plain t) : ∀ t ∈ a ++ b, Plain t :=
  List.forall_mem_append.mpr ⟨ha, hb⟩

theorem plain_singleton {t : Tree} (h : Plain t) : ∀ u ∈ [t], Plain u :=
  List.forall_mem_singleton.mpr h

theorem plain_token (lead text : List Char) : Plain (.leaf .token none lead text) :=
  ⟨_, _, _, rfl, .inr (.inl rfl)⟩

theorem plain_comment (lead text : List Char) : Plain (.leaf .comment none lead text) :=
  ⟨_, _, _, rfl, .inl rfl⟩

theorem plain_error (lead text : List Char) : Plain (.leaf .error none lead text) :=
  ⟨_, _, _, rfl, .inr (.inr rfl)⟩

theorem plain_comments (ha : ∀ t ∈ a, Comment T t) : ∀ t ∈ a, Plain t :=
  fun t ht => (ha t ht).plain

/-- What is made of punctuation and of nothing is plain. -/
theorem Written.plain (hp : p.isPlain = true) (ha : Written T p a) : ∀ t ∈ a, Plain t := by
  have hnil (ha : a = []) : ∀ t ∈ a, Plain t := by
    rw [ha]
    exact List.forall_mem_nil _
  cases p with
  | mark text =>
    obtain ⟨before, lead, hbefore, rfl⟩ := ha
    exact plain_append (plain_comments hbefore) (plain_singleton (plain_token _ _))
  | group opener closer =>
    obtain ⟨before, lead, inside, lead', hbefore, hinside, rfl⟩ := ha
    exact plain_append (plain_comments hbefore) (List.forall_mem_cons.mpr ⟨plain_token _ _,
      plain_append hinside (plain_singleton (plain_token _ _))⟩)
  | missing =>
    rw [(ha : a = _)]
    exact plain_singleton (plain_error _ _)
  | items item stop => exact plain_comments ha
  | seq ps =>
    cases ps with
    | nil => exact hnil ha
    | cons _ _ => cases hp
  | star _ | ahead _ | without _ | closed _ _ | angles => exact hnil ha
  | _ => cases hp

/-- What stands in front of a token are comments of the text, and so is what is left. -/
theorem splitComments_comments (hts : ∀ t ∈ ts, T t) :
    (∀ t ∈ (splitComments ts).1, Comment T t) ∧ ∀ t ∈ (splitComments ts).2, T t := by
  induction ts with
  | nil => exact ⟨List.forall_mem_nil _, hts⟩
  | cons t ts ih =>
    rw [splitComments]
    split
    · rename_i hsort
      obtain ⟨htrees, htokens⟩ := ih fun u hu => hts u (List.mem_cons_of_mem t hu)
      exact ⟨List.forall_mem_cons.mpr
        ⟨⟨t, hts t List.mem_cons_self, eq_of_beq hsort, rfl⟩, htrees⟩, htokens⟩
    · exact ⟨List.forall_mem_nil _, hts⟩

/-- A token that is taken stands behind comments. -/
theorem token_eq {kind : Kind} {accepts : Token → Bool} (hts : ∀ t ∈ ts, T t)
    (h : token kind accepts ts = some (a, rest)) :
    (∃ before t, a = before ++ [.leaf kind none t.lead t.text] ∧ (∀ c ∈ before, Comment T c) ∧
      T t ∧ accepts t = true) ∧ ∀ t ∈ rest, T t := by
  obtain ⟨htrees, htokens⟩ := splitComments_comments hts
  unfold token at h
  split at h
  · rename_i before t ts' heq
    rw [heq] at htrees htokens
    obtain ⟨ht, hrest⟩ := List.forall_mem_cons.mp htokens
    split at h
    · rename_i haccepts
      obtain ⟨rfl, rfl⟩ := Prod.mk.inj (Option.some.inj h)
      exact ⟨⟨before, t, rfl, htrees, ht, haccepts⟩, hrest⟩
    · cases h
  · cases h

theorem token_derives {kind : Kind} {accepts : Token → Bool}
    (hp : p.token? = some (kind, accepts)) (hts : ∀ t ∈ ts, T t)
    (h : token kind accepts ts = some (a, rest)) : Derives g T p a ∧ ∀ t ∈ rest, T t := by
  obtain ⟨⟨before, t, rfl, hbefore, ht, haccepts⟩, hrest⟩ := token_eq hts h
  exact ⟨.token hp hbefore ht haccepts, hrest⟩

theorem markRest_tokens {cs : List Char} (hts : ∀ t ∈ ts, T t)
    (h : markRest cs ts = some rest) : ∀ t ∈ rest, T t := by
  induction cs generalizing ts with
  | nil =>
    rw [← Option.some.inj h]
    exact hts
  | cons c cs ih =>
    cases ts with
    | nil => cases h
    | cons t ts =>
      rw [markRest] at h
      split at h
      · exact ih (fun u hu => hts u (List.mem_cons_of_mem t hu)) h
      · cases h

theorem marks_eq {cs : List Char} (hts : ∀ t ∈ ts, T t) (h : marks cs ts = some (a, rest)) :
    (∃ before lead, (∀ c ∈ before, Comment T c) ∧ a = before ++ [.leaf .token none lead cs]) ∧
      ∀ t ∈ rest, T t := by
  obtain ⟨htrees, htokens⟩ := splitComments_comments hts
  unfold marks at h
  split at h
  · rename_i c cs before t ts' heq
    rw [heq] at htrees htokens
    split at h
    · obtain ⟨rest', hrest, heq'⟩ := Option.map_eq_some_iff.mp h
      obtain ⟨rfl, rfl⟩ := Prod.mk.inj heq'
      exact ⟨⟨before, t.lead, htrees, rfl⟩,
        markRest_tokens (List.forall_mem_cons.mp htokens).2 hrest⟩
    · cases h
  · cases h

/-- The rest of a bracket ends with its closer. -/
theorem groupRest_eq {opener closer : Char} {depth : Nat} (hts : ∀ t ∈ ts, T t)
    (h : groupRest opener closer depth ts = some (a, rest)) :
    (∃ inside lead, (∀ t ∈ inside, Plain t) ∧
      a = inside ++ [.leaf .token none lead [closer]]) ∧ ∀ t ∈ rest, T t := by
  induction ts generalizing depth a rest with
  | nil =>
    unfold groupRest at h
    cases h
  | cons t ts ih =>
    obtain ⟨-, hmore⟩ := List.forall_mem_cons.mp hts
    have htree : Plain (.leaf (if t.sort == .comment then Kind.comment else Kind.token) none
        t.lead t.text) := by
      split
      · exact plain_comment _ _
      · exact plain_token _ _
    -- the bracket goes on behind the token
    have hgo {d : Nat} (h : ((groupRest opener closer d ts).map fun x =>
        (.leaf (if t.sort == .comment then Kind.comment else Kind.token) none t.lead t.text :: x.1,
          x.2)) = some (a, rest)) : (∃ inside lead, (∀ t ∈ inside, Plain t) ∧
        a = inside ++ [.leaf .token none lead [closer]]) ∧ ∀ t ∈ rest, T t := by
      obtain ⟨⟨a', rest'⟩, hrest, heq⟩ := Option.map_eq_some_iff.mp h
      obtain ⟨rfl, rfl⟩ := Prod.mk.inj heq
      obtain ⟨⟨inside, lead, hinside, rfl⟩, htokens⟩ := ih hmore hrest
      exact ⟨⟨_ :: inside, lead, List.forall_mem_cons.mpr ⟨htree, hinside⟩, rfl⟩, htokens⟩
    unfold groupRest at h
    dsimp only at h
    split at h
    · rename_i hclose
      split at h
      · obtain ⟨rfl, rfl⟩ := Prod.mk.inj (Option.some.inj h)
        obtain ⟨hsort, htext⟩ := Bool.and_eq_true_iff.mp hclose
        rw [eq_of_beq hsort, eq_of_beq htext]
        exact ⟨⟨[], t.lead, List.forall_mem_nil _, rfl⟩, hmore⟩
      · exact hgo h
    · exact hgo h

theorem bracket_written {opener closer : Char} (hts : ∀ t ∈ ts, T t)
    (h : bracket opener closer ts = some (a, rest)) :
    Written (ρ := ρ) T (.group opener closer) a ∧ ∀ t ∈ rest, T t := by
  unfold bracket at h
  obtain ⟨⟨start, ts'⟩, hmarks, h⟩ := Option.bind_eq_some_iff.mp h
  obtain ⟨⟨more, ts''⟩, hgroup, h⟩ := Option.bind_eq_some_iff.mp h
  obtain ⟨⟨before, lead, hbefore, rfl⟩, hts'⟩ := marks_eq hts hmarks
  obtain ⟨⟨inside, lead', hinside, rfl⟩, hts''⟩ := groupRest_eq hts' hgroup
  obtain ⟨rfl, rfl⟩ := Prod.mk.inj (Option.some.inj h)
  exact ⟨⟨before, lead, inside, lead', hbefore, hinside, List.append_assoc ..⟩, hts''⟩

/-- A token that fits nowhere is an error. -/
theorem wrong_plain (hts : ∀ t ∈ ts, T t) (h : wrong ts = some (a, rest)) :
    (∀ t ∈ a, Plain t) ∧ ∀ t ∈ rest, T t := by
  obtain ⟨⟨before, t, rfl, hbefore, -, -⟩, hrest⟩ := token_eq hts h
  exact ⟨plain_append (plain_comments hbefore) (plain_singleton (plain_error _ _)), hrest⟩

/-! ## 3. Matching -/

theorem splitLast_append (a : List Tree) : (splitLast a).1 ++ (splitLast a).2 = a := by
  induction a with
  | nil => rfl
  | cons t a ih =>
    cases a with
    | nil => rfl
    | cons u a =>
      rw [splitLast]
      · exact congrArg (t :: ·) ih
      · simp

/-- What matching makes of tokens, at a nesting. -/
structure DerivesAt (g : ρ → Pattern ρ) (T : Token → Prop) (n : Nat) : Prop where
  run : ∀ {p ts a rest}, (∀ t ∈ ts, T t) → run g n p ts = some (a, rest) →
    Derives g T p a ∧ ∀ t ∈ rest, T t
  extend : ∀ {base r tails a ts b rest}, Derives g T (.grow base r tails) a → (∀ t ∈ ts, T t) →
    extend g n r tails a ts = some (b, rest) →
    Derives g T (.grow base r tails) b ∧ ∀ t ∈ rest, T t
  step : ∀ {base r tails tails' a ts b rest}, tails' ⊆ tails →
    Derives g T (.grow base r tails) a → (∀ t ∈ ts, T t) →
    step g n r tails' a ts = some (b, rest) →
    Derives g T (.grow base r tails) b ∧ ∀ t ∈ rest, T t

variable {base : Pattern ρ} {r : Role} {tails tails' : List (Kind × Pattern ρ)}

theorem step_derives (h : DerivesAt g T n) (hsub : tails' ⊆ tails)
    (ha : Derives g T (.grow base r tails) a) (hts : ∀ t ∈ ts, T t)
    (hstep : step g (n + 1) r tails' a ts = some (b, rest)) :
    Derives g T (.grow base r tails) b ∧ ∀ t ∈ rest, T t := by
  cases tails' with
  | nil => cases hstep
  | cons kp tails' =>
    obtain ⟨kind, p⟩ := kp
    obtain ⟨hmem, hsub⟩ := List.cons_subset.mp hsub
    obtain hstep | ⟨c, hrun, rfl⟩ := step_cons_inv hstep
    · exact h.step hsub ha hts hstep
    · obtain ⟨hc, hrest⟩ := h.run hts hrun
      exact ⟨.tail ha hmem hc, hrest⟩

theorem extend_derives (h : DerivesAt g T n) (ha : Derives g T (.grow base r tails) a)
    (hts : ∀ t ∈ ts, T t) (hextend : extend g (n + 1) r tails a ts = some (b, rest)) :
    Derives g T (.grow base r tails) b ∧ ∀ t ∈ rest, T t := by
  obtain ⟨a', us, hstep, hend⟩ := extend_inv hextend
  obtain ⟨ha', hus⟩ := h.step (List.Subset.refl tails) ha hts hstep
  obtain ⟨rfl, rfl⟩ | hmore := hend
  · exact ⟨ha', hus⟩
  · exact h.extend ha' hus hmore

theorem run_derives (h : DerivesAt g T n) (hts : ∀ t ∈ ts, T t)
    (hrun : run g (n + 1) p ts = some (a, rest)) : Derives g T p a ∧ ∀ t ∈ rest, T t := by
  cases p with
  | word _ | oneOf _ _ | name _ _ | directive _ _ | otherDirective _ _ | sort _ _ =>
    rw [run] at hrun
    exact token_derives rfl hts hrun
  | mark text =>
    rw [run] at hrun
    obtain ⟨ha, hrest⟩ := marks_eq hts hrun
    exact ⟨.plain rfl ha, hrest⟩
  | group opener closer =>
    rw [run] at hrun
    obtain ⟨ha, hrest⟩ := bracket_written hts hrun
    exact ⟨.plain rfl ha, hrest⟩
  | seq ps =>
    cases ps with
    | nil =>
      rw [run] at hrun
      obtain ⟨rfl, rfl⟩ := Prod.mk.inj (Option.some.inj hrun)
      exact ⟨.plain rfl rfl, hts⟩
    | cons p ps =>
      obtain ⟨a', us, b', hp, hps, rfl⟩ := run_cons_inv hrun
      obtain ⟨ha, hus⟩ := h.run hts hp
      obtain ⟨hb, hrest⟩ := h.run hus hps
      exact ⟨.seq ha hb, hrest⟩
  | alts ps =>
    cases ps with
    | nil => cases hrun
    | cons p ps =>
      obtain hp | hps := run_alts_inv hrun
      · obtain ⟨ha, hrest⟩ := h.run hts hp
        exact ⟨.alts List.mem_cons_self ha, hrest⟩
      · obtain ⟨ha, hrest⟩ := h.run hts hps
        cases ha with
        | alts hmem hp => exact ⟨.alts (List.mem_cons_of_mem _ hmem) hp, hrest⟩
        | plain hp _ => cases hp
        | token hp _ _ _ => cases hp
  | star p =>
    obtain ⟨rfl, rfl⟩ | ⟨a', us, b', hfirst, hmore, rfl⟩ := run_star_inv hrun
    · exact ⟨.plain rfl rfl, hts⟩
    · obtain ⟨ha, hus⟩ := h.run hts hfirst
      obtain ⟨hb, hrest⟩ := h.run hus hmore
      exact ⟨.star ha hb, hrest⟩
  | rule x =>
    rw [run] at hrun
    obtain ⟨ha, hrest⟩ := h.run hts hrun
    exact ⟨.rule ha, hrest⟩
  | node kind p =>
    obtain ⟨hbefore, hbehind⟩ := splitComments_comments hts
    obtain ⟨a', hp, rfl⟩ := run_node_inv hrun
    obtain ⟨ha, hrest⟩ := h.run hbehind hp
    exact ⟨.node hbefore ha, hrest⟩
  | shaped shape p =>
    obtain ⟨hbefore, hbehind⟩ := splitComments_comments hts
    obtain ⟨a', hp, hshape⟩ := run_shaped_inv hrun
    obtain ⟨ha, hrest⟩ := h.run hbehind hp
    obtain ⟨kind, hkind, rfl⟩ | ⟨hnone, rfl⟩ := hshape
    · exact ⟨.shaped hbefore ha hkind, hrest⟩
    · exact ⟨.shapeless hbefore ha hnone, hrest⟩
  | role r p =>
    obtain ⟨a', hp, rfl⟩ := run_role_inv hrun
    obtain ⟨ha, hrest⟩ := h.run hts hp
    exact ⟨.role ha, hrest⟩
  | ahead _ | without _ | closed _ _ | angles =>
    obtain ⟨rfl, rfl⟩ := run_looks_inv rfl hrun
    exact ⟨.plain rfl rfl, hts⟩
  | missing =>
    rw [run] at hrun
    obtain ⟨rfl, rfl⟩ := Prod.mk.inj (Option.some.inj hrun)
    exact ⟨.plain rfl rfl, hts⟩
  | grow base r tails =>
    obtain ⟨a', us, hbase, hend⟩ := run_grow_inv hrun
    obtain ⟨ha, hus⟩ := h.run hts hbase
    obtain ⟨rfl, rfl⟩ | hmore := hend
    · exact ⟨.base ha, hus⟩
    · exact h.extend (.base ha) hus hmore
  | items item stop =>
    obtain ⟨rfl, rfl⟩ | ⟨rfl, rfl⟩ | ⟨a', us, b', hfirst, hmore, rfl⟩ := run_items_inv hrun
    · exact ⟨.plain rfl (List.forall_mem_nil _), hts⟩
    · obtain ⟨hbefore, hbehind⟩ := splitComments_comments hts
      exact ⟨.plain rfl hbefore, hbehind⟩
    · rcases hfirst with hitem | hwrong
      · obtain ⟨ha, hus⟩ := h.run hts hitem
        obtain ⟨hb, hrest⟩ := h.run hus hmore
        exact ⟨.item ha hb, hrest⟩
      · obtain ⟨ha, hus⟩ := wrong_plain hts hwrong
        obtain ⟨hb, hrest⟩ := h.run hus hmore
        exact ⟨.wrong ha hb, hrest⟩

/-- **A match makes what its pattern derives**, of the tokens of the text. -/
theorem derivesAt (g : ρ → Pattern ρ) (T : Token → Prop) (n : Nat) : DerivesAt g T n := by
  induction n with
  | zero => constructor <;> intros <;> contradiction
  | succ n ih => exact ⟨run_derives ih, extend_derives ih, step_derives ih⟩

/-! ## 4. Forms of patterns -/

section Forms

variable {ps : List (Pattern ρ)} {kind : Kind} {c : List Tree}

theorem derives_nil : Derives g T (.seq []) a ↔ a = [] := by
  constructor
  · intro h
    cases h with
    | plain _ ha => exact ha
    | token hp => cases hp
  · rintro rfl
    exact .plain rfl rfl

theorem derives_seq : Derives g T (.seq (p :: ps)) c ↔
    ∃ a b, Derives g T p a ∧ Derives g T (.seq ps) b ∧ c = a ++ b := by
  constructor
  · intro h
    cases h with
    | seq ha hb => exact ⟨_, _, ha, hb, rfl⟩
    | plain hp => cases hp
    | token hp => cases hp
  · rintro ⟨a, b, ha, hb, rfl⟩
    exact .seq ha hb

theorem derives_one : Derives g T (.seq [p]) a ↔ Derives g T p a := by
  rw [derives_seq]
  constructor
  · rintro ⟨a, b, ha, hb, rfl⟩
    rwa [derives_nil.mp hb, List.append_nil]
  · exact fun ha => ⟨a, [], ha, derives_nil.mpr rfl, (List.append_nil a).symm⟩

theorem derives_alts : Derives g T (.alts ps) a ↔ ∃ p ∈ ps, Derives g T p a := by
  constructor
  · intro h
    cases h with
    | alts hmem ha => exact ⟨_, hmem, ha⟩
    | plain hp => cases hp
    | token hp => cases hp
  · rintro ⟨p, hmem, ha⟩
    exact .alts hmem ha

theorem derives_rule {x : ρ} : Derives g T (.rule x) a ↔ Derives g T (g x) a := by
  constructor
  · intro h
    cases h with
    | rule ha => exact ha
    | plain hp => cases hp
    | token hp => cases hp
  · exact .rule

theorem derives_node : Derives g T (.node kind p) c ↔
    ∃ before a, (∀ t ∈ before, Comment T t) ∧ Derives g T p a ∧
      c = before ++ [.node kind none a] := by
  constructor
  · intro h
    cases h with
    | node hbefore ha => exact ⟨_, _, hbefore, ha, rfl⟩
    | plain hp => cases hp
    | token hp => cases hp
  · rintro ⟨before, a, hbefore, ha, rfl⟩
    exact .node hbefore ha

theorem derives_role : Derives g T (.role r p) c ↔
    ∃ a, Derives g T p a ∧ c = roleLast r a := by
  constructor
  · intro h
    cases h with
    | role ha => exact ⟨_, ha, rfl⟩
    | plain hp => cases hp
    | token hp => cases hp
  · rintro ⟨a, ha, rfl⟩
    exact .role ha

theorem derives_mark {text : String} : Derives g T (.mark text) a ↔
    ∃ before lead, (∀ t ∈ before, Comment T t) ∧
      a = before ++ [.leaf .token none lead text.toList] := by
  constructor
  · intro h
    cases h with
    | plain _ ha => exact ha
    | token hp => cases hp
  · exact fun h => .plain rfl h

theorem derives_token {accepts : Token → Bool} (hp : p.token? = some (kind, accepts)) :
    Derives g T p a ↔ ∃ before t, (∀ c ∈ before, Comment T c) ∧ T t ∧ accepts t = true ∧
      a = before ++ [.leaf kind none t.lead t.text] := by
  constructor
  · intro h
    cases h with
    | token hp' hbefore ht haccepts =>
      obtain ⟨rfl, rfl⟩ := Prod.mk.inj (Option.some.inj (hp.symm.trans hp'))
      exact ⟨_, _, hbefore, ht, haccepts, rfl⟩
    | plain hplain =>
      have hnone : p.token? = none := by cases p <;> first | rfl | cases hplain
      cases hp.symm.trans hnone
    | _ => cases hp
  · rintro ⟨before, t, hbefore, ht, haccepts, rfl⟩
    exact .token hp hbefore ht haccepts

theorem derives_group {opener closer : Char} : Derives g T (.group opener closer) a ↔
    ∃ before lead inside lead', (∀ c ∈ before, Comment T c) ∧ (∀ t ∈ inside, Plain t) ∧
      a = before ++ .leaf .token none lead [opener] ::
        (inside ++ [.leaf .token none lead' [closer]]) := by
  constructor
  · intro h
    cases h with
    | plain _ ha => exact ha
    | token hp => cases hp
  · exact fun h => .plain rfl h

theorem derives_without : Derives g T (.without p) a ↔ a = [] := by
  constructor
  · intro h
    cases h with
    | plain _ ha => exact ha
    | token hp => cases hp
  · rintro rfl
    exact .plain rfl rfl

end Forms

theorem roleLast_concat (r : Role) (a : List Tree) (t : Tree) :
    roleLast r (a ++ [t]) = a ++ [t.withRole r] := by
  induction a with
  | nil => rfl
  | cons u a ih =>
    rw [List.cons_append, roleLast]
    · rw [ih, List.cons_append]
    · simp

end Pattern

/-! ## 5. The grammar -/

namespace Grammar

variable {ts : List Tree} {k : Kind}

theorem memberShape_kind (h : memberShape ts = some k) :
    k = .functionDefinition ∨ k = .fieldDeclaration := by
  obtain rfl := Option.some.inj h
  split
  · exact .inl rfl
  · exact .inr rfl

theorem constructorShape_kind (h : constructorShape ts = some k) :
    k = .functionDefinition ∨ k = .declaration := by
  obtain rfl := Option.some.inj h
  split
  · exact .inl rfl
  · exact .inr rfl

theorem itemShape_kind (h : itemShape ts = some k) :
    k = .functionDefinition ∨ k = .declaration := by
  unfold itemShape at h
  split at h
  · exact .inl (Option.some.inj h).symm
  · split at h
    · exact .inr (Option.some.inj h).symm
    · cases h

theorem parameterShape_kind (h : parameterShape ts = some k) :
    k = .optionalParameter ∨ k = .variadicParameter ∨ k = .parameterDeclaration := by
  obtain rfl := Option.some.inj h
  split
  · exact .inl rfl
  · split
    · exact .inr (.inl rfl)
    · exact .inr (.inr rfl)

theorem nameShape_kind (h : nameShape ts = some k) :
    k = .placeholderType ∨ k = .qualifiedIdentifier := by
  unfold nameShape at h
  split at h
  · exact .inl (Option.some.inj h).symm
  · split at h
    · exact .inr (Option.some.inj h).symm
    · cases h

theorem segmentShape_kind (h : segmentShape ts = some k) : k = .templateType := by
  unfold segmentShape at h
  split at h
  · exact (Option.some.inj h).symm
  · cases h

theorem declaredShape_kind (h : declaredShape ts = some k) :
    k = .qualifiedIdentifier ∨ k = .templateName := by
  unfold declaredShape at h
  split at h
  · exact .inl (Option.some.inj h).symm
  · split at h
    · exact .inr (Option.some.inj h).symm
    · cases h

theorem namespaceShape_kind (h : namespaceShape ts = some k) : k = .nestedNamespace := by
  unfold namespaceShape at h
  split at h
  · exact (Option.some.inj h).symm
  · cases h

theorem classShape_kind (h : classShape ts = some k) :
    k = .classSpecifier ∨ k = .unionSpecifier ∨ k = .structSpecifier := by
  obtain rfl := Option.some.inj h
  split
  · exact .inl rfl
  · split
    · exact .inr (.inl rfl)
    · exact .inr (.inr rfl)

end Grammar

/-- **The tree of a text** holds what the items of the grammar derive. -/
theorem parse_derives {T : Token → Prop} (cs : List Char) (hts : ∀ t ∈ tokens cs, T t) :
    ∃ a, parse cs = .node .translationUnit none a ∧
      Pattern.Derives Grammar.grammar T (.items (.rule .item) (.alts [])) a := by
  have hempty : Pattern.Derives Grammar.grammar T (.items (.rule .item) (.alts [])) [] :=
    .plain rfl (List.forall_mem_nil _)
  unfold parse
  dsimp only
  split
  · rename_i trees rest hrun
    obtain ⟨htrees, -⟩ := (Pattern.derivesAt Grammar.grammar T _).run hts hrun
    cases htrees with
    | node hbefore ha => exact ⟨_, by rw [List.getLast?_concat]; rfl, ha⟩
    | plain hp _ => cases hp
    | token hp _ _ _ => cases hp
  · exact ⟨[], rfl, hempty⟩

end Scaffold.Cpp
