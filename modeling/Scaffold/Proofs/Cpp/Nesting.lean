import Scaffold.Proofs.Cpp.Matching
import Scaffold.Cpp.Grammar

/-!
# The nesting suffices

Matching counts its nesting down, and a match that ran out of it would look like one that
failed. With the nesting that is given to the tokens of a text this never happens: what a
pattern makes of them is the same with any more.

* `eats` -- the pattern takes a token whenever it matches; `run_leaves`: then fewer are left;
* `weight` -- how deep a pattern nests **before it takes a token**; `fits`: everything that
  may come behind a token weighs no more than a bound, and what is repeated eats;
* `run_stable` -- so a token costs no more than the bound, and **nesting beyond the weight
  and the bound for each token changes nothing**;
* `parse_eq` -- the grammar fits the nesting of a text.
-/
namespace Scaffold.Cpp

namespace Pattern

variable {ρ : Type}

/-! ## 1. What eats -/

mutual

/-- The pattern takes a token whenever it matches, if every rule does. -/
def eats : Pattern ρ → Bool
  | .seq ps => eatsSome ps
  | .alts ps => eatsAll ps
  | .star _ | .ahead _ | .without _ | .closed .. | .angles | .missing | .items .. => false
  | .node _ p | .shaped _ p | .role _ p => eats p
  | .grow base _ _ => eats base
  | _ => true

/-- Some pattern of a list eats. -/
def eatsSome : List (Pattern ρ) → Bool
  | [] => false
  | p :: ps => eats p || eatsSome ps

/-- Every pattern of a list eats. -/
def eatsAll : List (Pattern ρ) → Bool
  | [] => true
  | p :: ps => eats p && eatsAll ps

end

/-- Every tail eats. -/
def eatsTails (tails : List (Kind × Pattern ρ)) : Bool := tails.all fun t => t.2.eats

variable {g : ρ → Pattern ρ} {n : Nat} {p : Pattern ρ} {ps : List (Pattern ρ)}
  {ts rest : List Token} {a b : List Tree} {r : Role} {tails : List (Kind × Pattern ρ)}

theorem splitComments_length (ts : List Token) : (splitComments ts).2.length ≤ ts.length := by
  induction ts with
  | nil => exact Nat.le_refl 0
  | cons t ts ih =>
    rw [splitComments]
    split
    · exact Nat.le_succ_of_le ih
    · exact Nat.le_refl _

theorem token_length {kind : Kind} {accepts : Token → Bool}
    (h : token kind accepts ts = some (a, rest)) : rest.length < ts.length := by
  have hsplit := splitComments_length ts
  unfold token at h
  split at h
  · rename_i before t ts' heq
    rw [heq] at hsplit
    split at h
    · rw [← (Prod.mk.inj (Option.some.inj h)).2]
      exact hsplit
    · cases h
  · cases h

theorem markRest_length {cs : List Char} (h : markRest cs ts = some rest) :
    rest.length ≤ ts.length := by
  induction cs generalizing ts with
  | nil => exact Nat.le_of_eq (congrArg List.length (Option.some.inj h).symm)
  | cons c cs ih =>
    cases ts with
    | nil => cases h
    | cons t ts =>
      rw [markRest] at h
      split at h
      · exact Nat.le_succ_of_le (ih h)
      · cases h

theorem marks_length {cs : List Char} (h : marks cs ts = some (a, rest)) :
    rest.length < ts.length := by
  have hsplit := splitComments_length ts
  unfold marks at h
  split at h
  · rename_i c cs before t ts' heq
    rw [heq] at hsplit
    split at h
    · obtain ⟨rest', hrest, heq'⟩ := Option.map_eq_some_iff.mp h
      rw [← (Prod.mk.inj heq').2]
      exact Nat.lt_of_le_of_lt (markRest_length hrest) hsplit
    · cases h
  · cases h

theorem groupRest_length {opener closer : Char} {depth : Nat}
    (h : groupRest opener closer depth ts = some (a, rest)) : rest.length < ts.length := by
  induction ts generalizing depth a rest with
  | nil =>
    unfold groupRest at h
    cases h
  | cons t ts ih =>
    have hgo {d : Nat} {f : List Tree → List Tree} (h : ((groupRest opener closer d ts).map
        fun x => (f x.1, x.2)) = some (a, rest)) : rest.length < (t :: ts).length := by
      obtain ⟨⟨a', rest'⟩, hrest, heq⟩ := Option.map_eq_some_iff.mp h
      rw [← (Prod.mk.inj heq).2]
      exact Nat.lt_succ_of_lt (ih hrest)
    unfold groupRest at h
    dsimp only at h
    split at h
    · split at h
      · rw [← (Prod.mk.inj (Option.some.inj h)).2]
        exact Nat.lt_succ_self _
      · exact hgo h
    · exact hgo h

theorem bracket_length {opener closer : Char} (h : bracket opener closer ts = some (a, rest)) :
    rest.length < ts.length := by
  unfold bracket at h
  obtain ⟨⟨start, ts'⟩, hmarks, h⟩ := Option.bind_eq_some_iff.mp h
  obtain ⟨⟨more, ts''⟩, hgroup, h⟩ := Option.bind_eq_some_iff.mp h
  rw [← (Prod.mk.inj (Option.some.inj h)).2]
  exact Nat.lt_trans (groupRest_length hgroup) (marks_length hmarks)

/-- What a match leaves of the tokens, at a nesting. -/
structure LeavesAt (g : ρ → Pattern ρ) (n : Nat) : Prop where
  run : ∀ {p ts a rest}, run g n p ts = some (a, rest) →
    rest.length ≤ ts.length ∧ (p.eats = true → rest.length < ts.length)
  extend : ∀ {r tails a ts b rest}, extend g n r tails a ts = some (b, rest) →
    rest.length ≤ ts.length
  step : ∀ {r tails a ts b rest}, step g n r tails a ts = some (b, rest) →
    rest.length ≤ ts.length ∧ (eatsTails tails = true → rest.length < ts.length)

theorem step_leaves (h : LeavesAt g n) (hstep : step g (n + 1) r tails a ts = some (b, rest)) :
    rest.length ≤ ts.length ∧ (eatsTails tails = true → rest.length < ts.length) := by
  cases tails with
  | nil => cases hstep
  | cons t tails =>
    obtain ⟨kind, p⟩ := t
    have heats : eatsTails ((kind, p) :: tails) = true ↔ p.eats = true ∧ eatsTails tails = true :=
      Bool.and_eq_true_iff
    obtain hstep | ⟨c, hrun, -⟩ := step_cons_inv hstep
    · obtain ⟨hle, hlt⟩ := h.step hstep
      exact ⟨hle, fun hall => hlt (heats.mp hall).2⟩
    · obtain ⟨hle, hlt⟩ := h.run hrun
      exact ⟨hle, fun hall => hlt (heats.mp hall).1⟩

theorem extend_leaves (h : LeavesAt g n)
    (hextend : extend g (n + 1) r tails a ts = some (b, rest)) :
    rest.length ≤ ts.length := by
  obtain ⟨a', us, hstep, hend⟩ := extend_inv hextend
  have hle := (h.step hstep).1
  obtain ⟨-, rfl⟩ | hmore := hend
  · exact hle
  · exact Nat.le_trans (h.extend hmore) hle

theorem run_leaves (hg : ∀ x, (g x).eats = true) (h : LeavesAt g n)
    (hrun : run g (n + 1) p ts = some (a, rest)) :
    rest.length ≤ ts.length ∧ (p.eats = true → rest.length < ts.length) := by
  have hlt (h : rest.length < ts.length) :
      rest.length ≤ ts.length ∧ (p.eats = true → rest.length < ts.length) :=
    ⟨Nat.le_of_lt h, fun _ => h⟩
  have hidle (hle : rest.length ≤ ts.length) (hp : p.eats = false) :
      rest.length ≤ ts.length ∧ (p.eats = true → rest.length < ts.length) :=
    ⟨hle, fun heats => absurd (hp.symm.trans heats) Bool.false_ne_true⟩
  have hsame (h : rest = ts) (hp : p.eats = false) :
      rest.length ≤ ts.length ∧ (p.eats = true → rest.length < ts.length) :=
    hidle (Nat.le_of_eq (congrArg List.length h)) hp
  cases p with
  | word _ | oneOf _ _ | name _ _ | directive _ _ | otherDirective _ _ | sort _ _ =>
    rw [run] at hrun
    exact hlt (token_length hrun)
  | mark text =>
    rw [run] at hrun
    exact hlt (marks_length hrun)
  | group opener closer =>
    rw [run] at hrun
    exact hlt (bracket_length hrun)
  | seq ps =>
    cases ps with
    | nil =>
      rw [run] at hrun
      exact hsame (Prod.mk.inj (Option.some.inj hrun)).2.symm rfl
    | cons p ps =>
      obtain ⟨a', us, b', hp, hps, -⟩ := run_cons_inv hrun
      obtain ⟨hle, hfirst⟩ := h.run hp
      obtain ⟨hle', hmore⟩ := h.run hps
      refine ⟨Nat.le_trans hle' hle, fun heats => ?_⟩
      rw [eats, eatsSome, Bool.or_eq_true] at heats
      rcases heats with heats | heats
      · exact Nat.lt_of_le_of_lt hle' (hfirst heats)
      · exact Nat.lt_of_lt_of_le (hmore heats) hle
  | alts ps =>
    cases ps with
    | nil => cases hrun
    | cons p ps =>
      have heats : (Pattern.alts (p :: ps)).eats = true ↔
          p.eats = true ∧ (Pattern.alts ps).eats = true := Bool.and_eq_true_iff
      obtain hp | hps := run_alts_inv hrun
      · obtain ⟨hle, hfirst⟩ := h.run hp
        exact ⟨hle, fun hall => hfirst (heats.mp hall).1⟩
      · obtain ⟨hle, hmore⟩ := h.run hps
        exact ⟨hle, fun hall => hmore (heats.mp hall).2⟩
  | star p =>
    obtain ⟨-, hrest⟩ | ⟨a', us, b', hfirst, hmore, -⟩ := run_star_inv hrun
    · exact hsame hrest rfl
    · exact hidle (Nat.le_trans (h.run hmore).1 (h.run hfirst).1) rfl
  | rule x =>
    rw [run] at hrun
    exact hlt ((h.run hrun).2 (hg x))
  | node kind p =>
    obtain ⟨a', hp, -⟩ := run_node_inv hrun
    obtain ⟨hle, hinside⟩ := h.run hp
    have hsplit := splitComments_length ts
    exact ⟨Nat.le_trans hle hsplit, fun heats => Nat.lt_of_lt_of_le (hinside heats) hsplit⟩
  | shaped shape p =>
    obtain ⟨a', hp, -⟩ := run_shaped_inv hrun
    obtain ⟨hle, hinside⟩ := h.run hp
    have hsplit := splitComments_length ts
    exact ⟨Nat.le_trans hle hsplit, fun heats => Nat.lt_of_lt_of_le (hinside heats) hsplit⟩
  | role r p =>
    obtain ⟨a', hp, -⟩ := run_role_inv hrun
    obtain ⟨hle, hinside⟩ := h.run hp
    exact ⟨hle, hinside⟩
  | ahead _ | without _ | closed _ _ | angles => exact hsame (run_looks_inv rfl hrun).2 rfl
  | missing =>
    rw [run] at hrun
    exact hsame (Prod.mk.inj (Option.some.inj hrun)).2.symm rfl
  | grow base r tails =>
    obtain ⟨a', us, hbase, hend⟩ := run_grow_inv hrun
    obtain ⟨hle, hfirst⟩ := h.run hbase
    obtain ⟨-, rfl⟩ | hextend := hend
    · exact ⟨hle, hfirst⟩
    · have hmore := h.extend hextend
      exact ⟨Nat.le_trans hmore hle, fun heats => Nat.lt_of_le_of_lt hmore (hfirst heats)⟩
  | items item stop =>
    obtain ⟨-, hrest⟩ | ⟨-, hrest⟩ | ⟨a', us, b', hfirst, hmore, -⟩ := run_items_inv hrun
    · exact hsame hrest rfl
    · exact hidle (Nat.le_trans (Nat.le_of_eq (congrArg List.length hrest))
        (splitComments_length ts)) rfl
    · have hle : us.length ≤ ts.length := by
        rcases hfirst with hitem | hwrong
        · exact (h.run hitem).1
        · exact Nat.le_of_lt (token_length hwrong)
      exact hidle (Nat.le_trans (h.run hmore).1 hle) rfl

theorem leavesAt (hg : ∀ x, (g x).eats = true) (n : Nat) : LeavesAt g n := by
  induction n with
  | zero => exact ⟨nofun, nofun, nofun⟩
  | succ n ih => exact ⟨run_leaves hg ih, extend_leaves ih, step_leaves ih⟩

/-! ## 2. What patterns weigh -/

section Weights

variable (w : ρ → Nat)

mutual

/-- How deep the pattern nests before a token is taken, where `w` tells it of the rules. -/
def weight : Pattern ρ → Nat
  | .seq ps => weightSeq ps
  | .alts ps => weightAlts ps
  | .star p | .node _ p | .shaped _ p | .role _ p | .ahead p | .without p => 1 + weight p
  | .rule x => 1 + w x
  | .grow base _ tails => 1 + max (weight base) (if base.eats then 0 else 1 + weightTails tails)
  | .items item stop => 1 + max (weight item) (weight stop)
  | _ => 1

/-- The same for a sequence: what comes behind a pattern that eats has no weight. -/
def weightSeq : List (Pattern ρ) → Nat
  | [] => 1
  | p :: ps => 1 + max (weight p) (if p.eats then 0 else weightSeq ps)

/-- The same for alternatives. -/
def weightAlts : List (Pattern ρ) → Nat
  | [] => 1
  | p :: ps => 1 + max (weight p) (weightAlts ps)

/-- The same for tails. -/
def weightTails : List (Kind × Pattern ρ) → Nat
  | [] => 1
  | t :: ts => 1 + max (weightTail t) (weightTails ts)

/-- The same for one tail. -/
def weightTail : Kind × Pattern ρ → Nat
  | (_, p) => weight p

end

variable (bound : Nat)

mutual

/-- What may come behind a token weighs no more than the bound, and what is repeated eats. -/
def fits : Pattern ρ → Bool
  | .seq ps => fitsSeq ps
  | .alts ps => fitsAlts ps
  | .star p => p.eats && decide (1 + weight w p ≤ bound) && fits p
  | .node _ p | .shaped _ p | .role _ p | .ahead p | .without p => fits p
  | .grow base _ tails =>
    fits base && eatsTails tails && decide (1 + weightTails w tails ≤ bound) && fitsTails tails
  | .items item stop =>
    item.eats && decide (1 + max (weight w item) (weight w stop) ≤ bound) && fits item && fits stop
  | _ => true

/-- The same for a sequence. -/
def fitsSeq : List (Pattern ρ) → Bool
  | [] => decide (1 ≤ bound)
  | p :: ps => decide (weightSeq w (p :: ps) ≤ bound) && fits p && fitsSeq ps

/-- The same for alternatives. -/
def fitsAlts : List (Pattern ρ) → Bool
  | [] => true
  | p :: ps => fits p && fitsAlts ps

/-- The same for tails. -/
def fitsTails : List (Kind × Pattern ρ) → Bool
  | [] => true
  | t :: ts => fitsTail t && fitsTails ts

/-- The same for one tail. -/
def fitsTail : Kind × Pattern ρ → Bool
  | (_, p) => fits p

end

end Weights

/-! ## 3. Nesting that changes nothing -/

variable {w : ρ → Nat} {bound : Nat}

theorem fits_seq : fits w bound (.seq (p :: ps)) = true ↔
    weightSeq w (p :: ps) ≤ bound ∧ fits w bound p = true ∧ fits w bound (.seq ps) = true := by
  simp [fits, fitsSeq, and_assoc]

theorem fits_alts : fits w bound (.alts (p :: ps)) = true ↔
    fits w bound p = true ∧ fits w bound (.alts ps) = true := by
  simp [fits, fitsAlts]

theorem fits_star : fits w bound (.star p) = true ↔
    p.eats = true ∧ 1 + weight w p ≤ bound ∧ fits w bound p = true := by
  simp [fits, and_assoc]

theorem fits_grow : fits w bound (.grow p r tails) = true ↔ fits w bound p = true ∧
    eatsTails tails = true ∧ 1 + weightTails w tails ≤ bound ∧ fitsTails w bound tails = true := by
  simp [fits, and_assoc]

theorem fits_items {item stop : Pattern ρ} : fits w bound (.items item stop) = true ↔
    item.eats = true ∧ 1 + max (weight w item) (weight w stop) ≤ bound ∧
      fits w bound item = true ∧ fits w bound stop = true := by
  simp [fits, and_assoc]

theorem fitsTails_cons {kind : Kind} : fitsTails w bound ((kind, p) :: tails) = true ↔
    fits w bound p = true ∧ fitsTails w bound tails = true := by
  simp [fitsTails, fitsTail]

/-- What may come behind a token has no more than the bound as its weight. -/
theorem weightSeq_le (h : fits w bound (.seq ps) = true) : weightSeq w ps ≤ bound := by
  cases ps with
  | nil => exact of_decide_eq_true h
  | cons _ _ => exact (fits_seq.mp h).1

/-- Where fewer tokens are left there is room for any weight within the bound. -/
theorem room {m : Nat} (hm : m ≤ bound) (h : rest.length < ts.length) :
    m + bound * rest.length ≤ bound * ts.length :=
  calc m + bound * rest.length ≤ bound * rest.length + bound := by omega
    _ = bound * (rest.length + 1) := (Nat.mul_succ ..).symm
    _ ≤ bound * ts.length := Nat.mul_le_mul_left bound h

theorem room_of_le {m k : Nat} (hm : m + bound * ts.length ≤ k) (h : rest.length ≤ ts.length) :
    m + bound * rest.length ≤ k :=
  Nat.le_trans (Nat.add_le_add_left (Nat.mul_le_mul_left bound h) m) hm

/-- The same behind a pattern: where it eats, what comes behind it needs no room of its own. -/
theorem room_behind {m : Nat}
    (h : rest.length ≤ ts.length ∧ (p.eats = true → rest.length < ts.length)) (hm : m ≤ bound)
    (hn : (if p.eats then 0 else m) + bound * ts.length ≤ n) : m + bound * rest.length ≤ n := by
  cases heats : p.eats with
  | true =>
    rw [heats, if_pos rfl, Nat.zero_add] at hn
    exact Nat.le_trans (room hm (h.2 heats)) hn
  | false =>
    rw [heats, if_neg Bool.false_ne_true] at hn
    exact room_of_le hn h.1

theorem run_node {kind : Kind} (n : Nat) : run g (n + 1) (.node kind p) ts =
    (run g n p (splitComments ts).2).map fun x =>
      ((splitComments ts).1 ++ [.node kind none x.1], x.2) := rfl

theorem run_shaped {shape : List Tree → Option Kind} (n : Nat) :
    run g (n + 1) (.shaped shape p) ts = (run g n p (splitComments ts).2).map fun x =>
      match shape x.1 with
      | some kind => ((splitComments ts).1 ++ [.node kind none x.1], x.2)
      | none => ((splitComments ts).1 ++ x.1, x.2) := rfl

/-- One more of a nesting that covers the weight of a pattern and all tokens is not used. -/
structure StableAt (g : ρ → Pattern ρ) (w : ρ → Nat) (bound n : Nat) : Prop where
  run : ∀ {p ts}, fits w bound p = true → weight w p + bound * ts.length ≤ n →
    run g (n + 1) p ts = run g n p ts
  extend : ∀ {r tails a ts}, eatsTails tails = true → 1 + weightTails w tails ≤ bound →
    fitsTails w bound tails = true → 1 + weightTails w tails + bound * ts.length ≤ n →
    extend g (n + 1) r tails a ts = extend g n r tails a ts
  step : ∀ {r tails a ts}, fitsTails w bound tails = true →
    weightTails w tails + bound * ts.length ≤ n → step g (n + 1) r tails a ts =
      step g n r tails a ts

theorem step_stable (h : StableAt g w bound n) (htails : fitsTails w bound tails = true)
    (hn : weightTails w tails + bound * ts.length ≤ n + 1) :
    step g (n + 2) r tails a ts = step g (n + 1) r tails a ts := by
  cases tails with
  | nil => rfl
  | cons t tails =>
    obtain ⟨kind, p⟩ := t
    obtain ⟨hp, htails⟩ := fitsTails_cons.mp htails
    rw [weightTails, weightTail] at hn
    rw [step, step, h.run hp (by omega), h.step htails (by omega)]

theorem extend_stable (hg : ∀ x, (g x).eats = true) (h : StableAt g w bound n)
    (heats : eatsTails tails = true) (hbound : 1 + weightTails w tails ≤ bound)
    (htails : fitsTails w bound tails = true)
    (hn : 1 + weightTails w tails + bound * ts.length ≤ n + 1) :
    extend g (n + 2) r tails a ts = extend g (n + 1) r tails a ts := by
  rw [extend_succ, extend_succ, h.step htails (by omega)]
  cases hstep : step g n r tails a ts with
  | none => rfl
  | some x =>
    have hlt := ((leavesAt hg n).step hstep).2 heats
    have hroom := room hbound hlt
    dsimp only
    rw [h.extend heats hbound htails (by omega)]

theorem run_stable_at (hg : ∀ x, (g x).eats = true) (hw : ∀ x, weight w (g x) ≤ w x)
    (hfits : ∀ x, fits w bound (g x) = true) (h : StableAt g w bound n) (hp : fits w bound p = true)
    (hn : weight w p + bound * ts.length ≤ n + 1) : run g (n + 2) p ts = run g (n + 1) p ts := by
  cases p with
  | word _ | oneOf _ _ | name _ _ | mark _ | directive _ _ | otherDirective _ _ | sort _ _
  | group _ _ | closed _ _ | angles | missing => rfl
  | seq ps =>
    cases ps with
    | nil => rfl
    | cons p ps =>
      obtain ⟨-, hfirst, hmore⟩ := fits_seq.mp hp
      rw [weight, weightSeq] at hn
      change (run g (n + 1) p ts).bind _ = (run g n p ts).bind _
      rw [h.run hfirst (by omega)]
      refine Option.bind_congr fun x hx => ?_
      change (run g (n + 1) (.seq ps) x.2).bind _ = (run g n (.seq ps) x.2).bind _
      have hroom : weightSeq w ps + bound * x.2.length ≤ n :=
        room_behind ((leavesAt hg n).run hx) (weightSeq_le hmore) (by omega)
      rw [h.run (p := .seq ps) hmore hroom]
  | alts ps =>
    cases ps with
    | nil => rfl
    | cons p ps =>
      obtain ⟨hfirst, hmore⟩ := fits_alts.mp hp
      rw [weight, weightAlts] at hn
      rw [run_alts, run_alts, h.run hfirst (by omega),
        h.run (p := .alts ps) hmore (by rw [weight]; omega)]
  | star p =>
    obtain ⟨heats, hbound, hinside⟩ := fits_star.mp hp
    rw [weight] at hn
    rw [run_star, run_star, h.run hinside (by omega)]
    cases hrun : run g n p ts with
    | none => rfl
    | some x =>
      have hroom := room hbound (((leavesAt hg n).run hrun).2 heats)
      dsimp only
      rw [h.run (p := .star p) hp (by rw [weight]; omega)]
  | rule x =>
    have := hw x
    rw [weight] at hn
    change run g (n + 1) (g x) ts = run g n (g x) ts
    exact h.run (hfits x) (by omega)
  | node kind p =>
    rw [weight] at hn
    rw [run_node, run_node, h.run (p := p) hp (room_of_le (by omega) (splitComments_length ts))]
  | shaped shape p =>
    rw [weight] at hn
    rw [run_shaped, run_shaped, h.run (p := p) hp (room_of_le (by omega) (splitComments_length ts))]
  | role r p =>
    rw [weight] at hn
    rw [run, run, h.run (p := p) hp (by omega)]
  | ahead p =>
    rw [weight] at hn
    rw [run, run, h.run (p := p) hp (by omega)]
  | without p =>
    rw [weight] at hn
    rw [run, run, h.run (p := p) hp (by omega)]
  | grow base r tails =>
    obtain ⟨hbase, heats, hbound, htails⟩ := fits_grow.mp hp
    rw [weight] at hn
    rw [run_grow, run_grow, h.run hbase (by omega)]
    cases hrun : run g n base ts with
    | none => rfl
    | some x =>
      have hroom : 1 + weightTails w tails + bound * x.2.length ≤ n :=
        room_behind ((leavesAt hg n).run hrun) hbound (by omega)
      dsimp only
      rw [h.extend heats hbound htails hroom]
  | items item stop =>
    obtain ⟨heats, hbound, hitem, hstop⟩ := fits_items.mp hp
    rw [weight] at hn
    rw [run, run, h.run hstop (by omega), h.run hitem (by omega)]
    cases hrun : (run g n item ts).or (wrong ts) with
    | none => rfl
    | some x =>
      have hlt : x.2.length < ts.length := by
        rcases Option.or_eq_some_iff.mp hrun with hitem | ⟨-, hwrong⟩
        · exact ((leavesAt hg n).run hitem).2 heats
        · exact token_length hwrong
      have hroom := room hbound hlt
      dsimp only
      rw [h.run (p := .items item stop) hp (by rw [weight]; omega)]

theorem weight_pos (p : Pattern ρ) : 1 ≤ weight w p := by
  cases p with
  | seq ps => cases ps <;> simp [weight, weightSeq]
  | alts ps => cases ps <;> simp [weight, weightAlts]
  | _ => simp [weight]

theorem weightTails_pos (tails : List (Kind × Pattern ρ)) : 1 ≤ weightTails w tails := by
  cases tails <;> simp [weightTails]

theorem stableAt (hg : ∀ x, (g x).eats = true) (hw : ∀ x, weight w (g x) ≤ w x)
    (hfits : ∀ x, fits w bound (g x) = true) (n : Nat) : StableAt g w bound n := by
  induction n with
  | zero =>
    refine ⟨fun {p _} _ h => ?_, fun _ _ _ h => ?_, fun {_ tails _ _} _ h => ?_⟩
    · have := weight_pos (w := w) p
      omega
    · omega
    · have := weightTails_pos (w := w) tails
      omega
  | succ n ih =>
    exact ⟨run_stable_at hg hw hfits ih, extend_stable hg ih, step_stable ih⟩

/-- **Beyond the weight of a pattern and the bound for each token, nesting changes nothing.** -/
theorem run_stable (hg : ∀ x, (g x).eats = true) (hw : ∀ x, weight w (g x) ≤ w x)
    (hfits : ∀ x, fits w bound (g x) = true) (hp : fits w bound p = true)
    (hn : weight w p + bound * ts.length ≤ n) (m : Nat) : run g (m + n) p ts = run g n p ts := by
  induction m with
  | zero => rw [Nat.zero_add]
  | succ m ih =>
    rw [Nat.add_right_comm, (stableAt hg hw hfits (m + n)).run hp (by omega), ih]

end Pattern

/-! ## 4. The grammar -/

namespace Grammar

open Pattern

/-- How deep a rule nests before it takes a token, looked into to the given depth. -/
def height : Nat → Rule → Nat
  | 0, _ => 0
  | n + 1, x => weight (height n) (grammar x)

variable {k : Kind}

theorem grammar_eats (x : Rule) : (grammar x).eats = true := by
  cases x with
  | operator inAngles => cases inAngles <;> rfl
  | _ => rfl

/-- The kind of the name tells nothing of how deep a declarator nests. -/
theorem height_kind (n : Nat) : height n (.declarator k) = height n (.declarator .identifier) ∧
    height n (.plainDeclarator k) = height n (.plainDeclarator .identifier) := by
  induction n with
  | zero => exact ⟨rfl, rfl⟩
  | succ n ih =>
    simp [height, grammar, declaredName, opt, keyword, parens, weight, weightSeq, weightAlts,
      eats, eatsAll, eatsSome, ih]

/-- **Eight rules deep it is all told.** -/
theorem height_le (x : Rule) : height 9 x ≤ height 8 x := by
  cases x with
  | segment inner => cases inner <;> decide +kernel
  | expression inAngles => cases inAngles <;> decide +kernel
  | operator inAngles => cases inAngles <;> decide +kernel
  | declarator k =>
    rw [(height_kind 9).1, (height_kind 8).1]
    decide +kernel
  | plainDeclarator k =>
    rw [(height_kind 9).2, (height_kind 8).2]
    decide +kernel
  | _ => decide +kernel

/-- Every rule fits the nesting for a token. -/
theorem grammar_fits (x : Rule) : fits (height 8) 200 (grammar x) = true := by
  have hkind (k : Kind) :
      fits (height 8) 200 (grammar (.declarator k)) =
        fits (height 8) 200 (grammar (.declarator .identifier)) ∧
      fits (height 8) 200 (grammar (.plainDeclarator k)) =
        fits (height 8) 200 (grammar (.plainDeclarator .identifier)) := by
    simp [grammar, declaredName, opt, keyword, parens, fits, fitsSeq, fitsAlts, weight, weightSeq,
      weightAlts, eats, eatsAll, eatsSome, height_kind]
  cases x with
  | segment inner => cases inner <;> decide +kernel
  | expression inAngles => cases inAngles <;> decide +kernel
  | operator inAngles => cases inAngles <;> decide +kernel
  | declarator k => exact (hkind k).1.trans (by decide +kernel)
  | plainDeclarator k => exact (hkind k).2.trans (by decide +kernel)
  | _ => decide +kernel

/-- What a text is read as. -/
abbrev start : P := .node .translationUnit (.items (.rule .item) (.alts []))

/-- **More nesting than is given to the tokens of a text changes nothing.** -/
theorem run_nesting (ts : List Token) (m : Nat) :
    run grammar (m + nesting ts.length) start ts = run grammar (nesting ts.length) start ts := by
  have hstart : weight (height 8) start ≤ 1000 ∧ fits (height 8) 200 start = true := by
    decide +kernel
  refine run_stable (w := height 8) grammar_eats height_le grammar_fits hstart.2 ?_ m
  have := hstart.1
  unfold nesting
  omega

end Grammar

/-- **The tree of a text is what the grammar makes of its tokens**, whatever the nesting that
this takes. -/
theorem parse_eq {cs : List Char} {k : Nat} {trees : List Tree} {rest : List Token}
    (h : Pattern.Reads Grammar.grammar k Grammar.start (tokens cs) trees rest) :
    parse cs = trees.getLast?.getD (.node .translationUnit none []) := by
  have hrun := Grammar.run_nesting (tokens cs) k
  rw [Nat.add_comm, h] at hrun
  unfold parse
  dsimp only
  rw [← hrun]

end Scaffold.Cpp
