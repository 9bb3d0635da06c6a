import Scaffold.Proofs.Cpp.Derivations
import Scaffold.Proofs.Cpp.Matching

/-!
# Readings without a nesting

What a pattern makes of some tokens once the nesting is large enough.

* `Takes` -- it takes tokens off the front and makes trees of them;
* `Fails` -- it does not match;
* for each kind of pattern, a **rule** that gives the one or the other from what its parts
  do. A node hands over the comments in front of it.
-/
namespace Scaffold.Cpp.Pattern

variable {ρ : Type} {g : ρ → Pattern ρ} {p q : Pattern ρ} {ps : List (Pattern ρ)}
  {ts ts' rest : List Token} {t : Token} {a b before : List Tree} {u : Tree} {kind : Kind}
  {r : Role} {x : ρ} {shape : List Tree → Option Kind} {tails : List (Kind × Pattern ρ)}

/-- The pattern makes the trees and leaves the tokens in `rest`, nested deep enough. -/
def Takes (g : ρ → Pattern ρ) (p : Pattern ρ) (ts : List Token) (a : List Tree)
    (rest : List Token) : Prop := ∃ k, Reads g k p ts a rest

/-- The pattern does not match, nested deep enough. -/
def Fails (g : ρ → Pattern ρ) (p : Pattern ρ) (ts : List Token) : Prop := ∃ k, Refuses g k p ts

/-! ## 1. Tokens -/

theorem run_token {accepts : Token → Bool} (hp : p.token? = some (kind, accepts)) (n : Nat) :
    run g (n + 1) p ts = token kind accepts ts := by
  cases p <;> cases hp <;> rfl

/-- A pattern for one token takes it, with the comments in front. -/
theorem Takes.token {accepts : Token → Bool} (hp : p.token? = some (kind, accepts))
    (hts : splitComments ts = (before, t :: rest)) (h : accepts t = true) :
    Takes g p ts (before ++ [.leaf kind none t.lead t.text]) rest := by
  refine ⟨1, fun m => (run_token hp m).trans ?_⟩
  rw [Pattern.token, hts]
  exact if_pos h

theorem Fails.token {accepts : Token → Bool} (hp : p.token? = some (kind, accepts))
    (h : ∀ t, (splitComments ts).2.head? = some t → accepts t = false) : Fails g p ts := by
  refine ⟨1, fun m => (run_token hp m).trans ?_⟩
  rw [Pattern.token]
  split
  · rename_i before t ts' heq
    rw [heq] at h
    rw [h t rfl]
    rfl
  · rfl

theorem run_mark (text : String) (n : Nat) :
    run g (n + 1) (.mark text) ts = marks text.toList ts := rfl

theorem splitComments_of_ne (h : t.sort ≠ .comment) : splitComments (t :: ts) = ([], t :: ts) := by
  rw [splitComments, if_neg (by simpa using h)]

/-- A punctuation of one character. -/
theorem Takes.mark {text : String} {c : Char} (htext : text.toList = [c])
    (hts : splitComments ts = (before, t :: rest)) (hsort : t.sort = .mark) (ht : t.text = [c]) :
    Takes g (.mark text) ts (before ++ [.leaf .token none t.lead [c]]) rest := by
  refine ⟨1, fun m => (run_mark text m).trans ?_⟩
  rw [marks.eq_def, htext, hts]
  dsimp only
  rw [if_pos (by rw [hsort, ht]; exact beq_self_eq_true [c])]
  rfl

/-! ## 2. Sequences and alternatives -/

theorem Takes.nil : Takes g (.seq []) ts [] ts := ⟨1, fun _ => rfl⟩

theorem Takes.append (h : Takes g p ts a ts') (hs : Takes g (.seq ps) ts' b rest) :
    Takes g (.seq (p :: ps)) ts (a ++ b) rest := by
  obtain ⟨k, h⟩ := h
  obtain ⟨l, hs⟩ := hs
  exact ⟨_, (h.mono (Nat.le_max_left k l)).append (hs.mono (Nat.le_max_right k l))⟩

/-- A part that makes one tree. -/
theorem Takes.cons (h : Takes g p ts [u] ts') (hs : Takes g (.seq ps) ts' b rest) :
    Takes g (.seq (p :: ps)) ts (u :: b) rest := h.append hs

/-- A part that makes nothing. -/
theorem Takes.skip (h : Takes g p ts [] ts') (hs : Takes g (.seq ps) ts' b rest) :
    Takes g (.seq (p :: ps)) ts b rest := h.append hs

theorem Takes.last (h : Takes g p ts a rest) : Takes g (.seq [p]) ts a rest := by
  have hs : Takes g (.seq [p]) ts (a ++ []) rest := h.append .nil
  rwa [List.append_nil] at hs

theorem Fails.cons (h : Fails g p ts) : Fails g (.seq (p :: ps)) ts := by
  obtain ⟨k, h⟩ := h
  exact ⟨_, h.cons⟩

/-- What is left does not go on as the sequence does. -/
theorem Fails.behind (h : Takes g p ts a ts') (hs : Fails g (.seq ps) ts') :
    Fails g (.seq (p :: ps)) ts := by
  obtain ⟨k, h⟩ := h
  obtain ⟨l, hs⟩ := hs
  refine ⟨max k l + 1, fun m => ?_⟩
  change (run g (m + max k l) p ts).bind _ = _
  rw [h.mono (Nat.le_max_left k l) m, Option.bind_some]
  change (run g (m + max k l) (.seq ps) ts').bind _ = _
  rw [hs.mono (Nat.le_max_right k l) m]
  rfl

theorem Takes.first (h : Takes g p ts a rest) : Takes g (.alts (p :: ps)) ts a rest := by
  obtain ⟨k, h⟩ := h
  exact ⟨_, h.first⟩

theorem Takes.next (h : Fails g p ts) (hs : Takes g (.alts ps) ts a rest) :
    Takes g (.alts (p :: ps)) ts a rest := by
  obtain ⟨k, h⟩ := h
  obtain ⟨l, hs⟩ := hs
  exact ⟨_, .next (h.mono (Nat.le_max_left k l)) (hs.mono (Nat.le_max_right k l))⟩

/-- Alternatives that fail are passed over. -/
theorem Takes.pass {qs : List (Pattern ρ)} (h : ∀ q ∈ qs, Fails g q ts)
    (hs : Takes g (.alts ps) ts a rest) : Takes g (.alts (qs ++ ps)) ts a rest := by
  induction qs with
  | nil => exact hs
  | cons q qs ih =>
    exact .next (h q List.mem_cons_self) (ih fun q hq => h q (List.mem_cons_of_mem _ hq))

theorem Fails.next (h : Fails g p ts) (hs : Fails g (.alts ps) ts) :
    Fails g (.alts (p :: ps)) ts := by
  obtain ⟨k, h⟩ := h
  obtain ⟨l, hs⟩ := hs
  refine ⟨max k l + 1, fun m => ?_⟩
  change run g (m + max k l + 1) (.alts (p :: ps)) ts = _
  rw [run_alts, h.mono (Nat.le_max_left k l) m]
  exact hs.mono (Nat.le_max_right k l) m

theorem Fails.alts (h : ∀ p ∈ ps, Fails g p ts) : Fails g (.alts ps) ts := by
  induction ps with
  | nil => exact ⟨1, fun _ => rfl⟩
  | cons p ps ih =>
    exact .next (h p List.mem_cons_self) (ih fun q hq => h q (List.mem_cons_of_mem _ hq))

theorem Takes.star_nil (h : Fails g p ts) : Takes g (.star p) ts [] ts := by
  obtain ⟨k, h⟩ := h
  exact ⟨_, .star_nil h⟩

theorem Takes.star_cons (h : Takes g p ts a ts') (hs : Takes g (.star p) ts' b rest) :
    Takes g (.star p) ts (a ++ b) rest := by
  obtain ⟨k, h⟩ := h
  obtain ⟨l, hs⟩ := hs
  refine ⟨max k l + 1, fun m => ?_⟩
  change run g (m + max k l + 1) (.star p) ts = _
  rw [run_star, h.mono (Nat.le_max_left k l) m]
  dsimp only
  rw [hs.mono (Nat.le_max_right k l) m]

theorem Fails.star (h : Takes g p ts a ts') (hs : Fails g (.star p) ts') :
    Fails g (.star p) ts := by
  obtain ⟨k, h⟩ := h
  obtain ⟨l, hs⟩ := hs
  refine ⟨max k l + 1, fun m => ?_⟩
  change run g (m + max k l + 1) (.star p) ts = _
  rw [run_star, h.mono (Nat.le_max_left k l) m]
  dsimp only
  rw [hs.mono (Nat.le_max_right k l) m]

/-- One tree for each of some tokens. -/
theorem Takes.star_map {f : Token → Tree} (hts : ∀ t ∈ ts, ∀ us, Takes g p (t :: us) [f t] us)
    (hrest : Fails g p rest) : Takes g (.star p) (ts ++ rest) (ts.map f) rest := by
  induction ts with
  | nil => exact .star_nil hrest
  | cons t ts ih =>
    exact (hts t List.mem_cons_self _).star_cons (ih fun u hu => hts u (List.mem_cons_of_mem t hu))

/-! ## 3. Rules and nodes -/

theorem Takes.rule (h : Takes g (g x) ts a rest) : Takes g (.rule x) ts a rest := by
  obtain ⟨k, h⟩ := h
  exact ⟨_, h.rule⟩

theorem Fails.rule (h : Fails g (g x) ts) : Fails g (.rule x) ts := by
  obtain ⟨k, h⟩ := h
  exact ⟨k + 1, h⟩

theorem Takes.role (h : Takes g p ts a rest) : Takes g (.role r p) ts (roleLast r a) rest := by
  obtain ⟨k, h⟩ := h
  exact ⟨_, h.role⟩

theorem Fails.role (h : Fails g p ts) : Fails g (.role r p) ts := by
  obtain ⟨k, h⟩ := h
  refine ⟨k + 1, fun m => ?_⟩
  change (run g (m + k) p ts).map _ = _
  rw [h m]
  rfl

theorem Takes.node (hts : splitComments ts = (before, ts')) (h : Takes g p ts' a rest) :
    Takes g (.node kind p) ts (before ++ [.node kind none a]) rest := by
  obtain ⟨k, h⟩ := h
  refine ⟨k + 1, fun m => ?_⟩
  change (run g (m + k) p (splitComments ts).2).map
    (fun x => ((splitComments ts).1 ++ [Tree.node kind none x.1], x.2)) = _
  rw [hts, h m]
  rfl

theorem Fails.node (h : Fails g p (splitComments ts).2) : Fails g (.node kind p) ts := by
  obtain ⟨k, h⟩ := h
  refine ⟨k + 1, fun m => ?_⟩
  change (run g (m + k) p (splitComments ts).2).map _ = _
  rw [h m]
  rfl

theorem run_shape (n : Nat) : run g (n + 1) (.shaped shape p) ts =
    (run g n p (splitComments ts).2).map fun x =>
      match shape x.1 with
      | some kind => ((splitComments ts).1 ++ [.node kind none x.1], x.2)
      | none => ((splitComments ts).1 ++ x.1, x.2) := rfl

theorem Takes.shaped (hts : splitComments ts = (before, ts')) (h : Takes g p ts' a rest)
    (hshape : shape a = some kind) :
    Takes g (.shaped shape p) ts (before ++ [.node kind none a]) rest := by
  obtain ⟨k, h⟩ := h
  refine ⟨k + 1, fun m => ?_⟩
  change run g (m + k + 1) (.shaped shape p) ts = _
  rw [run_shape, hts, h m, Option.map_some]
  dsimp only
  rw [hshape]

/-- A shape that asks for no node. -/
theorem Takes.shapeless (hts : splitComments ts = (before, ts')) (h : Takes g p ts' a rest)
    (hshape : shape a = none) : Takes g (.shaped shape p) ts (before ++ a) rest := by
  obtain ⟨k, h⟩ := h
  refine ⟨k + 1, fun m => ?_⟩
  change run g (m + k + 1) (.shaped shape p) ts = _
  rw [run_shape, hts, h m, Option.map_some]
  dsimp only
  rw [hshape]

theorem Fails.shaped (h : Fails g p (splitComments ts).2) : Fails g (.shaped shape p) ts := by
  obtain ⟨k, h⟩ := h
  refine ⟨k + 1, fun m => ?_⟩
  change run g (m + k + 1) (.shaped shape p) ts = _
  rw [run_shape, h m]
  rfl

/-- A node with no comment in front. -/
theorem Takes.node_front (hts : Uncommented ts) (h : Takes g p ts a rest) :
    Takes g (.node kind p) ts [.node kind none a] rest := .node hts h

theorem Takes.shaped_front (hts : Uncommented ts) (h : Takes g p ts a rest)
    (hshape : shape a = some kind) : Takes g (.shaped shape p) ts [.node kind none a] rest :=
  .shaped hts h hshape

theorem Takes.shapeless_front (hts : Uncommented ts) (h : Takes g p ts a rest)
    (hshape : shape a = none) : Takes g (.shaped shape p) ts a rest := .shapeless hts h hshape

/-! ## 4. Looking ahead -/

theorem Takes.ahead (h : Takes g p ts a rest) : Takes g (.ahead p) ts [] ts := by
  obtain ⟨k, h⟩ := h
  refine ⟨k + 1, fun m => ?_⟩
  change (run g (m + k) p ts).map _ = _
  rw [h m]
  rfl

theorem Fails.ahead (h : Fails g p ts) : Fails g (.ahead p) ts := by
  obtain ⟨k, h⟩ := h
  refine ⟨k + 1, fun m => ?_⟩
  change (run g (m + k) p ts).map _ = _
  rw [h m]
  rfl

theorem run_without (n : Nat) : run g (n + 1) (.without p) ts =
    match run g n p ts with
    | some _ => none
    | none => some ([], ts) := rfl

theorem Takes.without (h : Fails g p ts) : Takes g (.without p) ts [] ts := by
  obtain ⟨k, h⟩ := h
  refine ⟨k + 1, fun m => ?_⟩
  change run g (m + k + 1) (.without p) ts = _
  rw [run_without, h m]

theorem Fails.without (h : Takes g p ts a rest) : Fails g (.without p) ts := by
  obtain ⟨k, h⟩ := h
  refine ⟨k + 1, fun m => ?_⟩
  change run g (m + k + 1) (.without p) ts = _
  rw [run_without, h m]

/-- The bracket ahead has a partner. -/
theorem Takes.closed {opener closer : Char} {x : List Tree × List Token}
    (h : bracket opener closer ts = some x) : Takes g (.closed opener closer) ts [] ts := by
  refine ⟨1, fun m => ?_⟩
  change (bracket opener closer ts).map _ = _
  rw [h]
  rfl

/-! ## 5. Tails and items -/

theorem Takes.grow (h : Takes g p ts a ts') (hs : ∃ k, Grows g k r tails a ts' b rest) :
    Takes g (.grow p r tails) ts b rest := by
  obtain ⟨k, h⟩ := h
  obtain ⟨l, hs⟩ := hs
  exact ⟨_, (h.mono (Nat.le_max_left k l)).grow (hs.mono (Nat.le_max_right k l))⟩

theorem Fails.grow (h : Fails g p ts) : Fails g (.grow p r tails) ts := by
  obtain ⟨k, h⟩ := h
  refine ⟨k + 1, fun m => ?_⟩
  change run g (m + k + 1) (.grow p r tails) ts = _
  rw [run_grow, h m]

/-- No tail goes around what has been read. -/
theorem step_fails (h : ∀ t ∈ tails, Fails g t.2 ts) :
    ∃ k, ∀ m, step g (m + k) r tails a ts = none := by
  induction tails with
  | nil => exact ⟨1, fun _ => rfl⟩
  | cons t tails ih =>
    obtain ⟨k, h'⟩ := h t List.mem_cons_self
    obtain ⟨l, hs⟩ := ih fun t ht => h t (List.mem_cons_of_mem _ ht)
    refine ⟨max k l + 1, fun m => ?_⟩
    obtain ⟨j, hj⟩ := Nat.exists_eq_add_of_le' (Nat.le_max_right k l)
    change step g (m + max k l + 1) r ((t.1, t.2) :: tails) a ts = _
    rw [step, h'.mono (Nat.le_max_left k l) m]
    dsimp only
    rw [hj, ← Nat.add_assoc]
    exact hs (m + j)

theorem grows_nil (h : ∀ t ∈ tails, Fails g t.2 ts) : ∃ k, Grows g k r tails a ts a ts := by
  obtain ⟨k, h⟩ := step_fails h
  exact ⟨_, .stop h⟩

/-- The first tail goes around what has been read. -/
theorem grows_tail {c : List Tree} (h : Takes g p ts b ts')
    (hs : ∃ k, Grows g k r ((kind, p) :: tails) [.node kind none (u.withRole r :: b)] ts' c rest) :
    ∃ k, Grows g k r ((kind, p) :: tails) [u] ts c rest := by
  obtain ⟨k, h⟩ := h
  obtain ⟨l, hs⟩ := hs
  refine ⟨_, .step (k := max (k + 1) l) (fun m => ?_) (hs.mono (Nat.le_max_right _ l))⟩
  obtain ⟨j, hj⟩ := Nat.exists_eq_add_of_le' (Nat.le_max_left (k + 1) l)
  rw [hj, ← Nat.add_assoc, ← Nat.add_assoc, step, h (m + j)]
  rfl

variable {item stop : Pattern ρ}

theorem run_items (n : Nat) : run g (n + 1) (.items item stop) ts =
    match run g n stop ts with
    | some _ => some ([], ts)
    | none =>
      match (run g n item ts).or (wrong ts) with
      | none => some (splitComments ts)
      | some (a, rest) =>
        match run g n (.items item stop) rest with
        | some (b, rest) => some (a ++ b, rest)
        | none => none := rfl

theorem Takes.items_stop (h : Takes g stop ts a rest) : Takes g (.items item stop) ts [] ts := by
  obtain ⟨k, h⟩ := h
  refine ⟨k + 1, fun m => ?_⟩
  change run g (m + k + 1) (.items item stop) ts = _
  rw [run_items, h m]

/-- Comments at the end of a text are no items. -/
theorem Takes.items_end (hstop : Fails g stop ts) (hitem : Fails g item ts)
    (hts : splitComments ts = (before, [])) : Takes g (.items item stop) ts before [] := by
  obtain ⟨k, hstop⟩ := hstop
  obtain ⟨l, hitem⟩ := hitem
  refine ⟨max k l + 1, fun m => ?_⟩
  change run g (m + max k l + 1) (.items item stop) ts = _
  rw [run_items, hstop.mono (Nat.le_max_left k l) m, hitem.mono (Nat.le_max_right k l) m,
    Option.none_or, wrong, Pattern.token, hts]

theorem Takes.items_cons (hstop : Fails g stop ts) (hitem : Takes g item ts a ts')
    (hs : Takes g (.items item stop) ts' b rest) : Takes g (.items item stop) ts (a ++ b) rest := by
  obtain ⟨k, hstop⟩ := hstop
  obtain ⟨l, hitem⟩ := hitem
  obtain ⟨j, hs⟩ := hs
  refine ⟨max k (max l j) + 1, fun m => ?_⟩
  change run g (m + max k (max l j) + 1) (.items item stop) ts = _
  rw [run_items, hstop.mono (by omega) m, hitem.mono (by omega) m, Option.some_or]
  dsimp only
  rw [hs.mono (by omega) m]

end Scaffold.Cpp.Pattern
