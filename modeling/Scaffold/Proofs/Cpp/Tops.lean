import Scaffold.Proofs.Cpp.Parts
import Scaffold.Proofs.Cpp.Words
import Scaffold.Proofs.Text.Squeeze

/-!
# The trees that a pattern puts side by side

A law of a grammar may speak of the trees right below a node. Those are the trees that a
pattern puts side by side, without what stands inside its nodes.

* `Tree.Visible` -- the text of a tree has a visible character; `visible_node`: that of a
  node has one if one of its parts does;
* `Pattern.Tops` -- the trees that a pattern puts side by side have a property, told by what
  the pattern is made of; `derives_tops`: **they have it in all that is derived**;
* `Pattern.Shown` -- a pattern begins with a word or a punctuation mark; `derives_shown`:
  **so there is something to see in all that it derives**.
-/
namespace Scaffold.Cpp

open Text (isBlank isWord)

/-! ## 1. Texts of trees -/

namespace Tree

variable {t : Tree} {ts : List Tree} {kind : Kind} {r : Option Role}

mutual

/-- Before the text of a tree is blank space. -/
theorem spelling_eq : ∀ t : Tree, ∃ lead, t.spelling = lead ++ t.text
  | .leaf _ _ lead _ => ⟨lead, by rw [spelling, text]⟩
  | .node _ _ cs => by
      rw [spelling, text]
      exact spellings_eq cs

theorem spellings_eq : ∀ ts : List Tree, ∃ lead, spellings ts = lead ++ texts ts
  | [] => ⟨[], rfl⟩
  | t :: ts => by
      obtain ⟨lead, hlead⟩ := spelling_eq t
      exact ⟨lead, by rw [spellings, texts, hlead, List.append_assoc]⟩

end

/-- The text of a tree with something below it. -/
theorem text_children (h : t.children ≠ []) : t.text = texts t.children := by
  cases t with
  | leaf => exact absurd rfl h
  | node => rfl

theorem spelling_children (h : t.children ≠ []) : t.spelling = spellings t.children := by
  cases t with
  | leaf => exact absurd rfl h
  | node => rfl

theorem spellings_append (as bs : List Tree) :
    spellings (as ++ bs) = spellings as ++ spellings bs := by
  induction as with
  | nil => rfl
  | cons t ts ih => rw [List.cons_append, spellings, spellings, ih, List.append_assoc]

/-- Behind something the text goes on with the blank space. -/
theorem texts_append {as : List Tree} (h : as ≠ []) (bs : List Tree) :
    texts (as ++ bs) = texts as ++ spellings bs := by
  cases as with
  | nil => exact absurd rfl h
  | cons t ts => rw [List.cons_append, texts, texts, spellings_append, List.append_assoc]

/-- The text of each tree is in the text of the list. -/
theorem text_subset_spellings (h : t ∈ ts) : t.text ⊆ spellings ts := by
  obtain ⟨before, behind, rfl⟩ := List.append_of_mem h
  obtain ⟨lead, hlead⟩ := spelling_eq t
  rw [spellings_append, spellings, hlead]
  intro c hc
  exact List.mem_append_right _ (List.mem_append_left _ (List.mem_append_right lead hc))

theorem text_subset_texts (h : t ∈ ts) : t.text ⊆ texts ts := by
  cases ts with
  | nil => cases h
  | cons u us =>
    rw [texts]
    rcases List.mem_cons.mp h with rfl | h
    · exact List.subset_append_left _ _
    · exact fun c hc => List.mem_append_right _ (text_subset_spellings h hc)

/-- The text has a visible character. -/
def Visible (t : Tree) : Prop := ∃ c ∈ t.text, isBlank c = false

theorem visible_leaf {lead text : List Char} (h : ∃ c ∈ text, isBlank c = false) :
    (Tree.leaf kind r lead text).Visible := h

/-- A node is visible if one of its parts is. -/
theorem visible_node (ht : t ∈ ts) (h : t.Visible) : (Tree.node kind r ts).Visible := by
  obtain ⟨c, hc, hvisible⟩ := h
  exact ⟨c, text_subset_texts ht hc, hvisible⟩

theorem visible_of_word {lead text : List Char} (h : isWord text = true) :
    (Tree.leaf kind r lead text).Visible := by
  obtain ⟨c, cs, rfl⟩ := List.exists_cons_of_ne_nil (Text.ne_nil_of_isWord h)
  exact ⟨c, List.mem_cons_self, Text.isBlank_of_isWord h c List.mem_cons_self⟩

theorem visible_of_slash {lead text : List Char} (h : text.head? = some '/') :
    (Tree.leaf kind r lead text).Visible :=
  ⟨'/', List.mem_of_mem_head? h, by decide⟩

@[simp] theorem visible_withRole (r : Role) : (t.withRole r).Visible ↔ t.Visible := by
  rw [Visible, text_withRole]
  rfl

end Tree

/-- The text of a token fits its class. -/
def Token.Fitting (t : Token) : Prop := t.sort.Fits t.text

namespace Pattern

variable {ρ : Type}

/-! ## 2. Trees side by side -/

section Tops

variable (Q : Tree → Prop) (N : Pattern ρ → Prop) (R : ρ → Prop)

mutual

/-- What a pattern puts side by side has the property `Q`, if nodes have it around a pattern
with `N`, the trees of a rule with `R` have it, and words and comments do. -/
@[simp] def Tops : Pattern ρ → Prop
  | .mark text => ∀ lead, Q (.leaf .token none lead text.toList)
  | .directive kind _ | .otherDirective kind _ | .sort kind _ =>
    ∀ lead text, Q (.leaf kind none lead text)
  | .group .. | .missing => ∀ t, Plain t → Q t
  | .seq ps | .alts ps => TopsAll ps
  | .star p => Tops p
  | .rule x => R x
  | .node _ p => N p
  | .shaped shape p => N p ∧ ((∀ a, shape a ≠ none) ∨ Tops p)
  | .role r p => Tops p ∧ ∀ t, Q t → Q (t.withRole r)
  | .grow base _ _ => Tops base ∧ ∀ kind a, Q (.node kind none a)
  | .items item _ => Tops item ∧ ∀ t, Plain t → Q t
  | _ => True

/-- The same for all patterns of a list. -/
@[simp] def TopsAll : List (Pattern ρ) → Prop
  | [] => True
  | p :: ps => Tops p ∧ TopsAll ps

end

end Tops

variable {g : ρ → Pattern ρ} {Q : Tree → Prop} {N : Pattern ρ → Prop} {R : ρ → Prop}
  {p : Pattern ρ} {a : List Tree}

theorem tops_of_mem {ps : List (Pattern ρ)} (h : TopsAll Q N R ps) (hp : p ∈ ps) :
    Tops Q N R p := by
  induction ps with
  | nil => cases hp
  | cons q ps ih =>
    rw [TopsAll] at h
    rcases List.mem_cons.mp hp with rfl | hp
    · exact h.1
    · exact ih h.2 hp

theorem tops_roleLast {r : Role} (ha : ∀ t ∈ a, Q t) (hr : ∀ t, Q t → Q (t.withRole r)) :
    ∀ t ∈ roleLast r a, Q t := by
  rcases a.eq_nil_or_concat with rfl | ⟨a, t, rfl⟩
  · exact List.forall_mem_nil _
  · rw [List.concat_eq_append] at ha ⊢
    obtain ⟨hbefore, ht⟩ := List.forall_mem_append.mp ha
    rw [roleLast_concat]
    exact List.forall_mem_append.mpr ⟨hbefore, List.forall_mem_singleton.mpr
      (hr t (List.forall_mem_singleton.mp ht))⟩

/-- What takes a token takes a word, if it is none of three patterns. -/
theorem token?_cases {kind : Kind} {accepts : Token → Bool} {t : Token}
    (h : p.token? = some (kind, accepts)) (haccepts : accepts t = true) : t.sort = .word ∨
      ∃ names sort, p = .directive kind names ∨ p = .otherDirective kind names ∨
        p = .sort kind sort := by
  cases p <;> cases h
  case directive => exact .inr ⟨_, .word, .inl rfl⟩
  case otherDirective => exact .inr ⟨_, .word, .inr (.inl rfl)⟩
  case sort => exact .inr ⟨[], _, .inr (.inr rfl)⟩
  case word => exact .inl (eq_of_beq (Bool.and_eq_true_iff.mp haccepts).1)
  case oneOf => exact .inl (eq_of_beq (Bool.and_eq_true_iff.mp haccepts).1)
  case name => exact .inl (eq_of_beq (Bool.and_eq_true_iff.mp haccepts).1)

/-- **The trees that a pattern puts side by side** have a property by what it is made of. -/
theorem derives_tops
    (hword : ∀ kind lead text, isWord text = true → Q (.leaf kind none lead text))
    (hcomment : ∀ lead text, text.head? = some '/' → Q (.leaf .comment none lead text))
    (hnode : ∀ kind p a, N p → Derives g Token.Fitting p a → Q (.node kind none a))
    (hg : ∀ x, R x → Tops Q N R (g x))
    (h : Derives g Token.Fitting p a) (hp : Tops Q N R p) : ∀ t ∈ a, Q t := by
  have hcomments {a : List Tree} (ha : ∀ c ∈ a, Comment Token.Fitting c) : ∀ t ∈ a, Q t := by
    intro c hc
    obtain ⟨t, ht, hsort, rfl⟩ := ha c hc
    exact hcomment _ _ (ht.2 hsort)
  have hbehind {before : List Tree} (hbefore : ∀ c ∈ before, Comment Token.Fitting c) {t : Tree}
      (ht : Q t) : ∀ u ∈ before ++ [t], Q u :=
    List.forall_mem_append.mpr ⟨hcomments hbefore, List.forall_mem_singleton.mpr ht⟩
  induction h with
  | @token p _ _ _ t htoken hbefore ht haccepts =>
    refine hbehind hbefore ?_
    rcases token?_cases htoken haccepts with hsort | ⟨names, sort, rfl | rfl | rfl⟩
    · exact hword _ _ _ (ht.1 hsort)
    all_goals
      rw [Tops] at hp
      exact hp _ _
  | @plain p _ hplain ha =>
    cases p with
    | mark text =>
      obtain ⟨before, lead, hbefore, rfl⟩ := ha
      rw [Tops] at hp
      exact hbehind hbefore (hp lead)
    | group opener closer =>
      rw [Tops] at hp
      exact fun t ht => hp t (ha.plain hplain t ht)
    | missing =>
      rw [Tops] at hp
      exact fun t ht => hp t (ha.plain hplain t ht)
    | items item stop =>
      rw [Tops] at hp
      exact fun t ht => hp.2 t (ha.plain hplain t ht)
    | seq ps =>
      cases ps with
      | nil => exact (ha : _ = []) ▸ List.forall_mem_nil _
      | cons _ _ => cases hplain
    | star _ | ahead _ | without _ | closed _ _ | angles =>
      exact (ha : _ = []) ▸ List.forall_mem_nil _
    | _ => cases hplain
  | seq _ _ ih ihmore =>
    rw [Tops, TopsAll] at hp
    exact List.forall_mem_append.mpr ⟨ih hp.1, ihmore (by rw [Tops]; exact hp.2)⟩
  | alts hmem _ ih =>
    rw [Tops] at hp
    exact ih (tops_of_mem hp hmem)
  | star _ _ ih ihmore =>
    exact List.forall_mem_append.mpr ⟨ih (by rwa [Tops] at hp), ihmore hp⟩
  | rule _ ih =>
    rw [Tops] at hp
    exact ih (hg _ hp)
  | node hbefore h ih =>
    rw [Tops] at hp
    exact hbehind hbefore (hnode _ _ _ hp h)
  | shaped hbefore h _ ih =>
    rw [Tops] at hp
    exact hbehind hbefore (hnode _ _ _ hp.1 h)
  | shapeless hbefore _ hshape ih =>
    rw [Tops] at hp
    exact List.forall_mem_append.mpr
      ⟨hcomments hbefore, ih (hp.2.resolve_left fun hnone => hnone _ hshape)⟩
  | role _ ih =>
    rw [Tops] at hp
    exact tops_roleLast (ih hp.1) hp.2
  | base _ ih =>
    rw [Tops] at hp
    exact ih hp.1
  | @tail _ _ _ a _ _ _ _ _ _ ih _ =>
    have ha := ih hp
    rw [Tops] at hp
    rw [← splitLast_append a] at ha
    exact List.forall_mem_append.mpr
      ⟨(List.forall_mem_append.mp ha).1, List.forall_mem_singleton.mpr (hp.2 _ _)⟩
  | item _ _ ih ihmore =>
    have hitem := hp
    rw [Tops] at hitem
    exact List.forall_mem_append.mpr ⟨ih hitem.1, ihmore hp⟩
  | wrong ha _ ih =>
    have hitem := hp
    rw [Tops] at hitem
    exact List.forall_mem_append.mpr ⟨fun t ht => hitem.2 t (ha t ht), ih hp⟩

/-! ## 3. Something to see -/

section Shown

variable (R : ρ → Prop)

mutual

/-- The pattern begins with a word or a punctuation mark, if the rules with `R` do. -/
@[simp] def Shown : Pattern ρ → Prop
  | .word _ | .oneOf .. | .name .. => True
  | .mark text => ∃ c ∈ text.toList, isBlank c = false
  | .seq ps => ShownFirst ps
  | .alts ps => ShownAll ps
  | .rule x => R x
  | .node _ p | .shaped _ p => Shown p
  | _ => False

/-- The first pattern of a list does. -/
@[simp] def ShownFirst : List (Pattern ρ) → Prop
  | [] => False
  | p :: _ => Shown p

/-- All patterns of a list do. -/
@[simp] def ShownAll : List (Pattern ρ) → Prop
  | [] => True
  | p :: ps => Shown p ∧ ShownAll ps

end

end Shown

theorem shown_of_mem {ps : List (Pattern ρ)} (h : ShownAll R ps) (hp : p ∈ ps) : Shown R p := by
  induction ps with
  | nil => cases hp
  | cons q ps ih =>
    rw [ShownAll] at h
    rcases List.mem_cons.mp hp with rfl | hp
    · exact h.1
    · exact ih h.2 hp

/-- **There is something to see** in what begins with a word or a punctuation mark. -/
theorem derives_shown (hg : ∀ x, R x → Shown R (g x)) (h : Derives g Token.Fitting p a)
    (hp : Shown R p) : ∃ t ∈ a, t.Visible := by
  have hbehind {before : List Tree} {t : Tree} (ht : t.Visible) : ∃ u ∈ before ++ [t], u.Visible :=
    ⟨t, List.mem_append_right _ List.mem_cons_self, ht⟩
  induction h with
  | @token p _ _ _ t htoken _ ht haccepts =>
    rcases token?_cases htoken haccepts with hsort | ⟨names, sort, rfl | rfl | rfl⟩
    · exact hbehind (Tree.visible_of_word (ht.1 hsort))
    all_goals simp at hp
  | @plain p _ hplain ha =>
    cases p with
    | mark text =>
      obtain ⟨before, lead, -, rfl⟩ := ha
      rw [Shown] at hp
      exact hbehind (Tree.visible_leaf hp)
    | seq ps =>
      cases ps with
      | nil => simp at hp
      | cons _ _ => cases hplain
    | group _ _ | missing | items _ _ | star _ | ahead _ | without _ | closed _ _ | angles =>
      simp at hp
    | _ => cases hplain
  | seq _ _ ih _ =>
    rw [Shown, ShownFirst] at hp
    obtain ⟨t, ht, hvisible⟩ := ih hp
    exact ⟨t, List.mem_append_left _ ht, hvisible⟩
  | alts hmem _ ih =>
    rw [Shown] at hp
    exact ih (shown_of_mem hp hmem)
  | rule _ ih =>
    rw [Shown] at hp
    exact ih (hg _ hp)
  | node _ _ ih =>
    rw [Shown] at hp
    obtain ⟨t, ht, hvisible⟩ := ih hp
    exact hbehind (Tree.visible_node ht hvisible)
  | shaped _ _ _ ih =>
    rw [Shown] at hp
    obtain ⟨t, ht, hvisible⟩ := ih hp
    exact hbehind (Tree.visible_node ht hvisible)
  | shapeless _ _ _ ih =>
    rw [Shown] at hp
    obtain ⟨t, ht, hvisible⟩ := ih hp
    exact ⟨t, List.mem_append_right _ ht, hvisible⟩
  | _ => simp at hp

end Pattern

end Scaffold.Cpp
