import Scaffold.Cpp.Pattern

/-!
# How patterns match

What a pattern makes of some tokens, whatever the nesting that is allowed beyond a bound:

* `Reads` -- it takes tokens off the front and makes trees of them;
* `Refuses` -- it does not match;
* for each kind of pattern, a **rule** that gives the one or the other from what its
  parts do;
* `run_cons_inv` and others -- what the parts have taken where a pattern has matched.

An alternative that is passed over has to refuse at every nesting, since an alternative
that only ran out of it would be passed over as well.
-/
namespace Scaffold.Cpp.Pattern

variable {ρ : Type} {g : ρ → Pattern ρ} {k k' : Nat} {p q : Pattern ρ} {ps : List (Pattern ρ)}
  {ts ts' rest : List Token} {a b : List Tree} {kind : Kind} {r : Role}
  {tails : List (Kind × Pattern ρ)}

/-- The pattern makes the trees and leaves the tokens in `rest`, from the nesting `k` on. -/
def Reads (g : ρ → Pattern ρ) (k : Nat) (p : Pattern ρ) (ts : List Token) (a : List Tree)
    (rest : List Token) : Prop :=
  ∀ m, run g (m + k) p ts = some (a, rest)

/-- The pattern does not match, from the nesting `k` on. -/
def Refuses (g : ρ → Pattern ρ) (k : Nat) (p : Pattern ρ) (ts : List Token) : Prop :=
  ∀ m, run g (m + k) p ts = none

theorem Reads.mono (h : Reads g k p ts a rest) (hk : k ≤ k') : Reads g k' p ts a rest := by
  intro m
  obtain ⟨j, rfl⟩ := Nat.exists_eq_add_of_le' hk
  rw [← Nat.add_assoc]
  exact h (m + j)

theorem Refuses.mono (h : Refuses g k p ts) (hk : k ≤ k') : Refuses g k' p ts := by
  intro m
  obtain ⟨j, rfl⟩ := Nat.exists_eq_add_of_le' hk
  rw [← Nat.add_assoc]
  exact h (m + j)

/-! ## 1. Sequences and alternatives -/

theorem run_alts (n : Nat) : run g (n + 1) (.alts (p :: ps)) ts =
    match run g n p ts with
    | some r => some r
    | none => run g n (.alts ps) ts := rfl

theorem run_star (n : Nat) : run g (n + 1) (.star p) ts =
    match run g n p ts with
    | none => some ([], ts)
    | some (a, rest) =>
      match run g n (.star p) rest with
      | some (b, rest) => some (a ++ b, rest)
      | none => none := rfl

theorem Reads.rule {x : ρ} (h : Reads g k (g x) ts a rest) :
    Reads g (k + 1) (.rule x) ts a rest := h

theorem Reads.append (h : Reads g k p ts a ts') (hs : Reads g k (.seq ps) ts' b rest) :
    Reads g (k + 1) (.seq (p :: ps)) ts (a ++ b) rest := by
  intro m
  change (run g (m + k) p ts).bind _ = _
  rw [h m, Option.bind_some]
  change (run g (m + k) (.seq ps) ts').bind _ = _
  rw [hs m]
  rfl

/-- A part that makes one tree. -/
theorem Reads.cons {t : Tree} (h : Reads g k p ts [t] ts') (hs : Reads g k (.seq ps) ts' b rest) :
    Reads g (k + 1) (.seq (p :: ps)) ts (t :: b) rest := h.append hs

theorem Reads.last (h : Reads g (k + 1) p ts a rest) : Reads g (k + 2) (.seq [p]) ts a rest := by
  have hs : Reads g (k + 2) (.seq [p]) ts (a ++ []) rest := h.append fun _ => rfl
  rwa [List.append_nil] at hs

theorem Refuses.cons (h : Refuses g k p ts) : Refuses g (k + 1) (.seq (p :: ps)) ts := by
  intro m
  change (run g (m + k) p ts).bind _ = _
  rw [h m]
  rfl

theorem Reads.first (h : Reads g k p ts a rest) : Reads g (k + 1) (.alts (p :: ps)) ts a rest := by
  intro m
  change run g (m + k + 1) (.alts (p :: ps)) ts = _
  rw [run_alts, h m]

theorem Reads.next (h : Refuses g k p ts) (hs : Reads g k (.alts ps) ts a rest) :
    Reads g (k + 1) (.alts (p :: ps)) ts a rest := by
  intro m
  change run g (m + k + 1) (.alts (p :: ps)) ts = _
  rw [run_alts, h m]
  exact hs m

theorem Reads.star_nil (h : Refuses g k p ts) : Reads g (k + 1) (.star p) ts [] ts := by
  intro m
  change run g (m + k + 1) (.star p) ts = _
  rw [run_star, h m]

/-! ## 2. Nodes -/

/-- No comment comes first. -/
def Uncommented (ts : List Token) : Prop := splitComments ts = ([], ts)

theorem Reads.role (h : Reads g k p ts a rest) :
    Reads g (k + 1) (.role r p) ts (roleLast r a) rest := by
  intro m
  change (run g (m + k) p ts).map _ = _
  rw [h m]
  rfl

theorem Reads.node (hts : Uncommented ts) (h : Reads g k p ts a rest) :
    Reads g (k + 1) (.node kind p) ts [.node kind none a] rest := by
  intro m
  change (run g (m + k) p (splitComments ts).2).map
    (fun x => ((splitComments ts).1 ++ [Tree.node kind none x.1], x.2)) = _
  rw [hts, h m]
  rfl

theorem Reads.shaped {shape : List Tree → Option Kind} (hts : Uncommented ts)
    (h : Reads g k p ts a rest) (hshape : shape a = some kind) :
    Reads g (k + 1) (.shaped shape p) ts [.node kind none a] rest := by
  intro m
  change run g (m + k + 1) (.shaped shape p) ts = _
  rw [run, hts]
  dsimp only
  rw [h m, Option.map_some]
  dsimp only
  rw [hshape]
  rfl

/-! ## 3. Tails -/

/-- Tails around what has been read give trees, from the nesting `k` on. -/
def Grows (g : ρ → Pattern ρ) (k : Nat) (r : Role) (tails : List (Kind × Pattern ρ))
    (a : List Tree) (ts : List Token) (b : List Tree) (rest : List Token) : Prop :=
  ∀ m, (extend g (m + k) r tails a ts).getD (a, ts) = (b, rest)

theorem Grows.mono (h : Grows g k r tails a ts b rest) (hk : k ≤ k') :
    Grows g k' r tails a ts b rest := by
  intro m
  obtain ⟨j, rfl⟩ := Nat.exists_eq_add_of_le' hk
  rw [← Nat.add_assoc]
  exact h (m + j)

theorem extend_succ (n : Nat) : extend g (n + 1) r tails a ts =
    match step g n r tails a ts with
    | none => none
    | some (a, rest) =>
      match extend g n r tails a rest with
      | none => some (a, rest)
      | some result => some result := rfl

theorem Grows.stop (h : ∀ m, step g (m + k) r tails a ts = none) :
    Grows g (k + 1) r tails a ts a ts := by
  intro m
  change (extend g (m + k + 1) r tails a ts).getD (a, ts) = _
  rw [extend_succ, h m]
  rfl

theorem Grows.step {c : List Tree} (h : ∀ m, step g (m + k) r tails a ts = some (b, ts'))
    (hs : Grows g k r tails b ts' c rest) : Grows g (k + 1) r tails a ts c rest := by
  intro m
  have hm := hs m
  change (extend g (m + k + 1) r tails a ts).getD (a, ts) = _
  rw [extend_succ, h m]
  dsimp only
  cases hx : extend g (m + k) r tails b ts' with
  | none =>
    rw [hx] at hm
    exact hm
  | some x =>
    rw [hx] at hm
    exact hm

theorem run_grow (n : Nat) : run g (n + 1) (.grow p r tails) ts =
    match run g n p ts with
    | none => none
    | some (a, rest) =>
      match extend g n r tails a rest with
      | none => some (a, rest)
      | some result => some result := rfl

theorem Reads.grow (h : Reads g k p ts a ts') (hs : Grows g k r tails a ts' b rest) :
    Reads g (k + 1) (.grow p r tails) ts b rest := by
  intro m
  have hm := hs m
  change run g (m + k + 1) (.grow p r tails) ts = _
  rw [run_grow, h m]
  dsimp only
  cases hx : extend g (m + k) r tails a ts' with
  | none =>
    rw [hx] at hm
    exact congrArg some hm
  | some x =>
    rw [hx] at hm
    exact congrArg some hm

/-! ## 4. What has matched -/

variable {c : List Tree} {n : Nat}

theorem run_cons_inv (h : run g (n + 1) (.seq (p :: ps)) ts = some (c, rest)) :
    ∃ a us b, run g n p ts = some (a, us) ∧ run g n (.seq ps) us = some (b, rest) ∧
      c = a ++ b := by
  rw [run] at h
  obtain ⟨⟨a, us⟩, hp, h⟩ := Option.bind_eq_some_iff.mp h
  obtain ⟨⟨b, vs⟩, hps, h⟩ := Option.bind_eq_some_iff.mp h
  obtain ⟨rfl, rfl⟩ := Prod.mk.inj (Option.some.inj h)
  exact ⟨a, us, b, hp, hps, rfl⟩

theorem run_alts_inv (h : run g (n + 1) (.alts (p :: ps)) ts = some (a, rest)) :
    run g n p ts = some (a, rest) ∨ run g n (.alts ps) ts = some (a, rest) := by
  rw [run_alts] at h
  split at h
  · rename_i result hp
    exact .inl (hp.trans h)
  · exact .inr h

theorem run_star_inv (h : run g (n + 1) (.star p) ts = some (c, rest)) :
    (c = [] ∧ rest = ts) ∨ ∃ a us b, run g n p ts = some (a, us) ∧
      run g n (.star p) us = some (b, rest) ∧ c = a ++ b := by
  rw [run_star] at h
  split at h
  · obtain ⟨rfl, rfl⟩ := Prod.mk.inj (Option.some.inj h)
    exact .inl ⟨rfl, rfl⟩
  · rename_i a us hfirst
    split at h
    · rename_i b vs hmore
      obtain ⟨rfl, rfl⟩ := Prod.mk.inj (Option.some.inj h)
      exact .inr ⟨a, us, b, hfirst, hmore, rfl⟩
    · cases h

theorem run_node_inv (h : run g (n + 1) (.node kind p) ts = some (c, rest)) :
    ∃ a, run g n p (splitComments ts).2 = some (a, rest) ∧
      c = (splitComments ts).1 ++ [.node kind none a] := by
  rw [run] at h
  obtain ⟨⟨a, us⟩, hp, heq⟩ := Option.map_eq_some_iff.mp h
  obtain ⟨rfl, rfl⟩ := Prod.mk.inj heq
  exact ⟨a, hp, rfl⟩

theorem run_shaped_inv {shape : List Tree → Option Kind}
    (h : run g (n + 1) (.shaped shape p) ts = some (c, rest)) :
    ∃ a, run g n p (splitComments ts).2 = some (a, rest) ∧
      ((∃ kind, shape a = some kind ∧ c = (splitComments ts).1 ++ [.node kind none a]) ∨
        shape a = none ∧ c = (splitComments ts).1 ++ a) := by
  rw [run] at h
  obtain ⟨⟨a, us⟩, hp, heq⟩ := Option.map_eq_some_iff.mp h
  dsimp only at heq
  split at heq
  · rename_i kind hshape
    obtain ⟨rfl, rfl⟩ := Prod.mk.inj heq
    exact ⟨a, hp, .inl ⟨kind, hshape, rfl⟩⟩
  · rename_i hshape
    obtain ⟨rfl, rfl⟩ := Prod.mk.inj heq
    exact ⟨a, hp, .inr ⟨hshape, rfl⟩⟩

theorem run_role_inv (h : run g (n + 1) (.role r p) ts = some (c, rest)) :
    ∃ a, run g n p ts = some (a, rest) ∧ c = roleLast r a := by
  rw [run] at h
  obtain ⟨⟨a, us⟩, hp, heq⟩ := Option.map_eq_some_iff.mp h
  obtain ⟨rfl, rfl⟩ := Prod.mk.inj heq
  exact ⟨a, hp, rfl⟩

/-- The pattern looks at tokens and takes none. -/
def looks : Pattern ρ → Bool
  | .ahead _ | .without _ | .closed .. | .angles => true
  | _ => false

theorem run_looks_inv (hp : p.looks = true) (h : run g (n + 1) p ts = some (c, rest)) :
    c = [] ∧ rest = ts := by
  cases p with
  | ahead p =>
    rw [run] at h
    obtain ⟨x, -, heq⟩ := Option.map_eq_some_iff.mp h
    exact Prod.mk.inj heq.symm
  | without p =>
    rw [run] at h
    split at h
    · cases h
    · exact Prod.mk.inj (Option.some.inj h.symm)
  | closed opener closer =>
    rw [run] at h
    obtain ⟨x, -, heq⟩ := Option.map_eq_some_iff.mp h
    exact Prod.mk.inj heq.symm
  | angles =>
    rw [run] at h
    split at h
    · split at h
      · exact Prod.mk.inj (Option.some.inj h.symm)
      · cases h
    · cases h
  | _ => cases hp

theorem run_grow_inv (h : run g (n + 1) (.grow p r tails) ts = some (c, rest)) :
    ∃ a us, run g n p ts = some (a, us) ∧
      (c = a ∧ rest = us ∨ extend g n r tails a us = some (c, rest)) := by
  rw [run_grow] at h
  split at h
  · cases h
  · rename_i a us hbase
    split at h
    · exact ⟨a, us, hbase, .inl (Prod.mk.inj (Option.some.inj h.symm))⟩
    · rename_i result hextend
      exact ⟨a, us, hbase, .inr (hextend.trans h)⟩

/-- Items end in front of what stops them or behind the last comments; otherwise an item has been
read, or a token skipped. -/
theorem run_items_inv {item stop : Pattern ρ}
    (h : run g (n + 1) (.items item stop) ts = some (c, rest)) :
    (c = [] ∧ rest = ts) ∨ (c = (splitComments ts).1 ∧ rest = (splitComments ts).2) ∨
      ∃ a us b, (run g n item ts = some (a, us) ∨ wrong ts = some (a, us)) ∧
        run g n (.items item stop) us = some (b, rest) ∧ c = a ++ b := by
  rw [run] at h
  split at h
  · exact .inl (Prod.mk.inj (Option.some.inj h.symm))
  · split at h
    · exact .inr (.inl (Prod.mk.inj (Option.some.inj h.symm)))
    · rename_i a us hfirst
      split at h
      · rename_i b vs hmore
        obtain ⟨rfl, rfl⟩ := Prod.mk.inj (Option.some.inj h)
        exact .inr (.inr ⟨a, us, b, (Option.or_eq_some_iff.mp hfirst).imp id And.right, hmore, rfl⟩)
      · cases h

theorem extend_inv (h : extend g (n + 1) r tails a ts = some (c, rest)) :
    ∃ b us, step g n r tails a ts = some (b, us) ∧
      (c = b ∧ rest = us ∨ extend g n r tails b us = some (c, rest)) := by
  rw [extend_succ] at h
  split at h
  · cases h
  · rename_i b us hstep
    split at h
    · exact ⟨b, us, hstep, .inl (Prod.mk.inj (Option.some.inj h.symm))⟩
    · rename_i result hmore
      exact ⟨b, us, hstep, .inr (hmore.trans h)⟩

theorem step_cons_inv (h : step g (n + 1) r ((kind, p) :: tails) a ts = some (c, rest)) :
    step g n r tails a ts = some (c, rest) ∨ ∃ b, run g n p ts = some (b, rest) ∧
      c = (splitLast a).1 ++ [.node kind none (roleLast r (splitLast a).2 ++ b)] := by
  rw [step] at h
  split at h
  · exact .inl h
  · rename_i b us hrun
    obtain ⟨rfl, rfl⟩ := Prod.mk.inj (Option.some.inj h)
    exact .inr ⟨b, hrun, rfl⟩

end Scaffold.Cpp.Pattern
