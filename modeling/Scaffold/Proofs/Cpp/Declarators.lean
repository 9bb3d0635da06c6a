import Mathlib.Data.List.Basic
import Scaffold.Cpp.Describe
import Scaffold.Proofs.Cpp.Lexing
import Scaffold.Proofs.Cpp.Matching

/-!
# Bounds of arrays

A declarator of an array of arrays nests: around the declarator with the bounds before
it stands one for the last bound. So peeling, which goes from the outside in, meets
the bounds **from the last one to the first**.

* `arrayTree` -- such a declarator without a name; `peel_arrays`: what it adds to a type;
* `step_array`, `reads_base` -- the grammar reads the first bound, and each further one around it;
* `clear_bounds`, `dimensions_inj` -- bounds are written one after the other, and can be told from
  what is written.
-/
namespace Scaffold.Cpp

open Grammar (grammar abstractTails)
open Pattern

variable {s : List Char} {l ss : List (List Char)}

/-- The bounds of an array, one after the other. -/
def dimensions (ss : List (List Char)) : List Char := ss.flatMap fun s => '[' :: s ++ [']']

/-! ## 1. Trees -/

/-- The brackets around a bound, which may be left out. -/
def bracketTrees (s : List Char) : List Tree :=
  .leaf .token none [] ['['] ::
    (if s.isEmpty then [] else
      [.node .expression (some .size) [.leaf .numberLiteral none [] s]]) ++
    [.leaf .token none [] [']']]

/-- The parts of a declarator of an array without a name, the outermost bound first. -/
def arrayParts : List (List Char) → List Tree
  | [] => []
  | s :: l =>
    (if l.isEmpty then [] else
      [.node .abstractArrayDeclarator (some .declarator) (arrayParts l)]) ++ bracketTrees s

/-- The declarator of an array without a name. -/
abbrev arrayTree (r : Option Role) (l : List (List Char)) : Tree :=
  .node .abstractArrayDeclarator r (arrayParts l)

theorem arrayParts_cons (s : List Char) (hl : l ≠ []) :
    arrayParts (s :: l) = arrayTree (some .declarator) l :: bracketTrees s := by
  rw [arrayParts, if_neg (by simpa using hl)]
  rfl

theorem size_arrays (r : Option Role) (s : List Char) (l : List (List Char)) :
    (((arrayTree r (s :: l)).child? .size).map Tree.text).getD [] = s := by
  cases l <;> cases s <;>
    simp [arrayParts, bracketTrees, Tree.child?, Tree.children, Tree.role, Tree.text, Tree.texts,
      Tree.spellings]

theorem peelRole_brackets (s : List Char) :
    Tree.peelRole .declarator (bracketTrees s) = ⟨none, []⟩ := by
  cases s <;> rfl

/-- **Peeling gives the bounds from the outermost one in.** -/
theorem peel_arrays (r : Option Role) (hl : l ≠ []) :
    (arrayTree r l).peel = ⟨none, dimensions l⟩ := by
  induction l generalizing r with
  | nil => exact absurd rfl hl
  | cons s l ih =>
    have hrole : Tree.peelRole .declarator (arrayParts (s :: l)) = ⟨none, dimensions l⟩ := by
      by_cases h : l = []
      · subst h
        exact peelRole_brackets s
      · rw [arrayParts_cons s h]
        exact ih (some .declarator) h
    rw [Tree.peel, size_arrays, hrole]
    simp [dimensions]

/-! ## 2. What the grammar reads -/

/-- The tokens of a bound in brackets. -/
def bracketTokens (s : List Char) : List Token :=
  ⟨.mark, [], ['[']⟩ :: (if s.isEmpty then [] else [⟨.number, [], s⟩]) ++ [⟨.mark, [], [']']⟩]

set_option maxRecDepth 2000 in
/-- A further bound goes around what has been read. -/
theorem step_array (m : Nat) (s : List Char) (hl : l ≠ []) (rest : List Token) :
    step grammar (m + 80) .declarator abstractTails [arrayTree none l] (bracketTokens s ++ rest) =
      some ([arrayTree none (s :: l)], rest) := by
  obtain ⟨t, l, rfl⟩ := List.exists_cons_of_ne_nil hl
  cases s with
  | nil => rfl
  | cons c s => rfl

theorem reads_base (s : List Char) (rest : List Token) :
    Reads grammar 90 (.rule .abstractBase) (bracketTokens s ++ rest) [arrayTree none [s]] rest := by
  cases s with
  | nil => exact fun _ => rfl
  | cons c s => exact fun _ => rfl

/-! ## 3. Text -/

theorem spelled_brackets (s : List Char) : spelled (bracketTokens s) = '[' :: s ++ [']'] := by
  cases s <;> simp [bracketTokens]

theorem spelled_dimensions (ss : List (List Char)) :
    spelled (ss.flatMap bracketTokens) = dimensions ss := by
  induction ss with
  | nil => rfl
  | cons s ss ih =>
    rw [List.flatMap_cons, spelled_append, spelled_brackets, ih]
    rfl

theorem clear_bracket (hs : Bound s) {ts : List Token} (hts : Clear ts) :
    Clear (bracketTokens s ++ ts) := by
  cases s with
  | nil => exact .mark (by decide) (by decide) (.mark (by decide) (by decide) hts)
  | cons c s =>
    exact .mark (by decide) (by decide) (.number (by decide) hs (List.cons_ne_nil c s) (.mark rfl)
      (.mark (by decide) (by decide) hts))

/-- Bounds may stand in front of any tokens. -/
theorem clear_bounds (hss : ∀ s ∈ ss, Bound s) {ts : List Token} (hts : Clear ts) :
    Clear (ss.flatMap bracketTokens ++ ts) := by
  induction ss with
  | nil => exact hts
  | cons s ss ih =>
    rw [List.flatMap_cons, List.append_assoc]
    exact clear_bracket (hss s List.mem_cons_self)
      (ih fun t ht => hss t (List.mem_cons_of_mem s ht))

theorem dimensions_inj {ts : List (List Char)} (hss : ∀ s ∈ ss, Bound s) (hts : ∀ t ∈ ts, Bound t)
    (h : dimensions ss = dimensions ts) : ss = ts := by
  induction ss generalizing ts with
  | nil =>
    cases ts with
    | nil => rfl
    | cons t ts => cases h
  | cons s ss ih =>
    cases ts with
    | nil => cases h
    | cons t ts =>
      have hdigits : ∀ c ∈ digits, (c != ']') = true := List.forall_iff_forall_mem.mp (by decide)
      have hopen : ∀ {s}, Bound s → ∀ c ∈ s, (c != ']') = true := fun hs c hc => hdigits c (hs c hc)
      -- a bound ends at the first closing bracket
      have hends : ∀ {s : List Char} (cs : List Char), Bound s →
          (s ++ ']' :: cs).takeWhile (· != ']') = s := fun cs hs => by
        rw [List.takeWhile_append_of_pos (hopen hs), List.takeWhile_cons_of_neg (by decide),
          List.append_nil]
      have hparts : s ++ ']' :: dimensions ss = t ++ ']' :: dimensions ts := by
        simpa [dimensions] using h
      have hs := hends (dimensions ss) (hss s List.mem_cons_self)
      rw [hparts, hends (dimensions ts) (hts t List.mem_cons_self)] at hs
      subst hs
      rw [ih (fun s hs => hss s (List.mem_cons_of_mem t hs))
        (fun s hs => hts s (List.mem_cons_of_mem t hs))
        (List.cons.inj (List.append_cancel_left hparts)).2]

end Scaffold.Cpp
