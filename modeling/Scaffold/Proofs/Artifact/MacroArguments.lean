import Mathlib.Data.List.Basic
import Scaffold.Artifact.MockHeader
import Scaffold.Proofs.Artifact.Reading
import Scaffold.Proofs.Path.Pieces
import Scaffold.Proofs.Text.Identifiers

/-!
# The arguments of the mock macro

The preprocessor takes the arguments of a macro apart at the commas outside all
parentheses.

* `depthFrom` -- how many parentheses are open behind a text; `Balanced`: as many as
  before it, and never fewer on the way;
* `parts` -- the text between the commas outside all parentheses;
* `Sealed` -- a text that no comma takes apart: `sealed_macroArgument` for a type as it is
  written into the macro, `parts_sealed` for a list of such texts;
* `unprotected` -- the type that an argument was made of;
* `mockMacro_parts` -- **the macro always has its four arguments, and they say what the
  method is**.
-/
namespace Scaffold.Artifact.MockHeader

open Text (isIdentifier)

variable {s t : List Char} {d e : Nat}

/-! ## 1. Parentheses -/

/-- The parentheses that are open behind a character; none where one closes that is not
open. -/
def depthAfter (d : Nat) (c : Char) : Option Nat :=
  if c = '(' then some (d + 1)
  else if c = ')' then (match d with
    | 0 => none
    | d + 1 => some d)
  else some d

/-- The parentheses that are open behind a text. -/
def depthFrom (d : Nat) : List Char → Option Nat
  | [] => some d
  | c :: cs => (depthAfter d c).bind fun e => depthFrom e cs

/-- Every parenthesis of the text is closed in it, and none that is not open. -/
def Balanced (s : List Char) : Prop := depthFrom 0 s = some 0

instance (s : List Char) : Decidable (Balanced s) :=
  inferInstanceAs (Decidable (depthFrom 0 s = some 0))

theorem depthFrom_append : depthFrom d (s ++ t) = (depthFrom d s).bind (depthFrom · t) := by
  induction s generalizing d with
  | nil => rfl
  | cons c s ih =>
    rw [List.cons_append, depthFrom, depthFrom, Option.bind_assoc]
    exact congrArg _ (funext fun e => ih)

/-- What is balanced may stand at any depth. -/
theorem depthFrom_add (h : depthFrom d s = some e) (k : Nat) :
    depthFrom (d + k) s = some (e + k) := by
  induction s generalizing d with
  | nil =>
    obtain rfl := Option.some.inj h
    rfl
  | cons c s ih =>
    obtain ⟨d', hstep, hrest⟩ := Option.bind_eq_some_iff.mp h
    have hlifted : depthAfter (d + k) c = some (d' + k) := by
      unfold depthAfter at hstep ⊢
      split at hstep
      · rename_i hopen
        obtain rfl := Option.some.inj hstep
        rw [if_pos hopen, Nat.add_right_comm]
      · rename_i hopen
        rw [if_neg hopen]
        split at hstep
        · rename_i hclose
          rw [if_pos hclose]
          cases d with
          | zero => cases hstep
          | succ d =>
            obtain rfl := Option.some.inj hstep
            rw [Nat.add_right_comm]
        · rename_i hclose
          obtain rfl := Option.some.inj hstep
          rw [if_neg hclose]
    rw [depthFrom, hlifted]
    exact ih hrest

theorem Balanced.append (hs : Balanced s) (ht : Balanced t) : Balanced (s ++ t) := by
  rw [Balanced, depthFrom_append, hs]
  exact ht

theorem Balanced.group (hs : Balanced s) : Balanced ('(' :: s ++ [')']) := by
  rw [Balanced, List.cons_append, depthFrom]
  change depthFrom 1 (s ++ [')']) = some 0
  rw [depthFrom_append, depthFrom_add hs 1]
  rfl

/-- A text without parentheses is balanced. -/
theorem balanced_of_notMem (ho : '(' ∉ s) (hc : ')' ∉ s) : Balanced s := by
  induction s with
  | nil => rfl
  | cons c s ih =>
    obtain ⟨hco, hso⟩ := not_or.mp (List.mem_cons.not.mp ho)
    obtain ⟨hcc, hsc⟩ := not_or.mp (List.mem_cons.not.mp hc)
    rw [Balanced, depthFrom, depthAfter, if_neg (Ne.symm hco), if_neg (Ne.symm hcc)]
    exact ih hso hsc

/-! ## 2. Parts -/

/-- The parts of a text, from a place where `d` parentheses are open. -/
def partsFrom (d : Nat) : List Char → List (List Char)
  | [] => [[]]
  | c :: cs =>
    if c = ',' ∧ d = 0 then [] :: partsFrom d cs
    else (partsFrom ((depthAfter d c).getD 0) cs).modifyHead (c :: ·)

/-- The parts of a text between the commas outside all parentheses. -/
def parts (s : List Char) : List (List Char) := partsFrom 0 s

/-- The parts of what stands in a group of parentheses: none if there is nothing in it. -/
def members (s : List Char) : List (List Char) := if s.isEmpty then [] else parts s

/-- A text up to which no comma stands outside all parentheses, from one depth to another. -/
inductive Runs : Nat → List Char → Nat → Prop where
  | nil (d : Nat) : Runs d [] d
  | cons {d e f : Nat} {c : Char} {s : List Char} (hc : c = ',' → d ≠ 0)
      (hstep : depthAfter d c = some e) (hrest : Runs e s f) : Runs d (c :: s) f

/-- A balanced text with no comma outside all parentheses: no comma takes it apart. -/
def Sealed (s : List Char) : Prop := Runs 0 s 0

theorem Runs.append {f : Nat} (hs : Runs d s e) (ht : Runs e t f) : Runs d (s ++ t) f := by
  induction hs with
  | nil => exact ht
  | cons hc hstep _ ih => exact .cons hc hstep (ih ht)

theorem Runs.depth (h : Runs d s e) : depthFrom d s = some e := by
  induction h with
  | nil => rfl
  | cons _ hstep _ ih =>
    rw [depthFrom, hstep]
    exact ih

/-- Behind an open parenthesis no comma counts. -/
theorem runs_inside (h : depthFrom d s = some e) : Runs (d + 1) s (e + 1) := by
  induction s generalizing d with
  | nil =>
    obtain rfl := Option.some.inj h
    exact .nil _
  | cons c s ih =>
    obtain ⟨d', hstep, hrest⟩ := Option.bind_eq_some_iff.mp h
    have hlifted : depthFrom (d + 1) [c] = some (d' + 1) :=
      depthFrom_add (by rw [depthFrom, hstep]; rfl) 1
    obtain ⟨d'', hstep', heq⟩ := Option.bind_eq_some_iff.mp hlifted
    obtain rfl := Option.some.inj heq
    exact .cons (fun _ => Nat.succ_ne_zero d) hstep' (ih hrest)

/-- Where there is no comma, none counts. -/
theorem runs_of_notMem (hcomma : ',' ∉ s) (h : depthFrom d s = some e) : Runs d s e := by
  induction s generalizing d with
  | nil =>
    obtain rfl := Option.some.inj h
    exact .nil _
  | cons c s ih =>
    obtain ⟨hc, hs⟩ := not_or.mp (List.mem_cons.not.mp hcomma)
    obtain ⟨d', hstep, hrest⟩ := Option.bind_eq_some_iff.mp h
    exact .cons (fun heq => absurd heq.symm hc) hstep (ih hs hrest)

theorem sealed_group (h : Balanced s) : Sealed ('(' :: s ++ [')']) :=
  .cons (by decide) rfl ((runs_inside h).append (.cons (by decide) rfl (.nil 0)))

/-- A text goes into the first part up to a comma that counts. -/
theorem partsFrom_runs (h : Runs d s e) :
    partsFrom d (s ++ t) = (partsFrom e t).modifyHead (s ++ ·) := by
  induction h with
  | nil d => exact (congrFun List.modifyHead_id (partsFrom d t)).symm
  | cons hc hstep _ ih =>
    rw [List.cons_append, partsFrom, if_neg fun h => hc h.1 h.2, hstep,
      Option.getD_some, ih, List.modifyHead_modifyHead]
    rfl

/-- **Texts that no comma takes apart are the parts of what the commas make of them.** -/
theorem parts_intercalate {L : List (List Char)} (h : ∀ s ∈ L, Sealed s) (hne : L ≠ []) :
    parts ([','].intercalate L) = L := by
  induction L with
  | nil => exact absurd rfl hne
  | cons s L ih =>
    obtain ⟨hs, hL⟩ := List.forall_mem_cons.mp h
    cases L with
    | nil =>
      rw [List.intercalate_singleton, ← List.append_nil s, parts, partsFrom_runs hs, partsFrom,
        List.modifyHead_cons]
    | cons t L =>
      rw [List.intercalate_cons_cons, List.append_assoc, parts, partsFrom_runs hs,
        List.singleton_append, partsFrom, if_pos ⟨rfl, rfl⟩, List.modifyHead_cons,
        List.append_nil]
      exact congrArg (s :: ·) (ih hL (List.cons_ne_nil t L))

theorem Sealed.balanced (h : Sealed s) : Balanced s := Runs.depth h

theorem balanced_intercalate {L : List (List Char)} (h : ∀ s ∈ L, Sealed s) :
    Balanced ([','].intercalate L) := by
  induction L with
  | nil => rfl
  | cons s L ih =>
    obtain ⟨hs, hL⟩ := List.forall_mem_cons.mp h
    cases L with
    | nil =>
      rw [List.intercalate_singleton]
      exact hs.balanced
    | cons t L =>
      rw [List.intercalate_cons_cons]
      exact (hs.balanced.append (balanced_of_notMem (by decide) (by decide))).append (ih hL)

/-! ## 3. Types as arguments -/

/-- A text without the spaces at its ends. -/
def trimSpaces (s : List Char) : List Char :=
  Text.dropEndWhile (· == ' ') (s.dropWhile (· == ' '))

/-- A text with something in it and no space at its ends. -/
structure Tight (s : List Char) : Prop where
  nonempty : s ≠ []
  first : s.head? ≠ some ' '
  last : s.getLast? ≠ some ' '

instance (s : List Char) : Decidable (Tight s) :=
  decidable_of_iff (_ ∧ _ ∧ _) ⟨fun h => ⟨h.1, h.2.1, h.2.2⟩, fun h => ⟨h.1, h.2, h.3⟩⟩

/-- A type that can be told from what is around it: tight, and every parenthesis in it
closed. -/
structure Spelled (type : String) : Prop where
  tight : Tight type.toList
  balanced : Balanced type.toList

instance (type : String) : Decidable (Spelled type) :=
  decidable_of_iff (_ ∧ _) ⟨fun h => ⟨h.1, h.2⟩, fun h => ⟨h.1, h.2⟩⟩

/-- The type that an argument was made of. -/
def unprotected (s : List Char) : List Char := if s.contains ',' then s.tail.dropLast else s

theorem trimSpaces_tight (h : Tight s) : trimSpaces s = s := by
  obtain ⟨hne, hfirst, hlast⟩ := h
  have hfront : s.dropWhile (· == ' ') = s := by
    obtain ⟨c, cs, rfl⟩ := List.exists_cons_of_ne_nil hne
    exact List.dropWhile_cons_of_neg (by simpa using hfirst)
  rw [trimSpaces, hfront, ← List.dropLast_append_getLast hne]
  refine Text.dropEndWhile_append_of_neg ?_ _
  rw [List.getLast?_eq_some_getLast hne] at hlast
  simpa using hlast

/-- A space in front does not count. -/
theorem trimSpaces_space (h : Tight s) : trimSpaces (' ' :: s) = s := trimSpaces_tight h

theorem tight_group (s : List Char) : Tight ('(' :: s ++ [')']) := by
  refine ⟨List.cons_ne_nil _ _, by simp, ?_⟩
  rw [List.getLast?_append_of_ne_nil _ (List.cons_ne_nil _ _)]
  decide

theorem toList_macroArgument (type : String) : (macroArgument type).toList =
    if type.toList.contains ',' then '(' :: type.toList ++ [')'] else type.toList := by
  unfold macroArgument
  split
  · simp [String.toList_append]
  · rfl

theorem tight_macroArgument {type : String} (h : Spelled type) :
    Tight (macroArgument type).toList := by
  rw [toList_macroArgument]
  split
  · exact tight_group _
  · exact h.tight

/-- **No comma takes a type apart that is written into the macro.** -/
theorem sealed_macroArgument {type : String} (h : Spelled type) :
    Sealed (macroArgument type).toList := by
  rw [toList_macroArgument]
  split
  · exact sealed_group h.balanced
  · rename_i hcomma
    exact runs_of_notMem (by simpa using hcomma) h.balanced

/-- **The type can be told from what is written into the macro.** -/
theorem unprotected_macroArgument (type : String) :
    unprotected (macroArgument type).toList = type.toList := by
  rw [toList_macroArgument]
  split
  · rename_i hcomma
    have hinside : ('(' :: type.toList ++ [')']).contains ',' = true := by
      simpa using hcomma
    rw [unprotected, if_pos hinside]
    simp
  · rename_i hcomma
    rw [unprotected, if_neg hcomma]

/-! ## 4. The macro -/

/-- A space in front is not a comma. -/
theorem Sealed.space (h : Sealed s) : Sealed (' ' :: s) := .cons (by decide) rfl h

/-- A list with a space behind every comma. -/
theorem toList_intercalate (a : String) (L : List String) : (", ".intercalate (a :: L)).toList =
    [','].intercalate (a.toList :: L.map fun b => ' ' :: b.toList) := by
  induction L generalizing a with
  | nil => rw [String.intercalate_singleton, List.map_nil, List.intercalate_singleton]
  | cons b L ih =>
    rw [String.intercalate_cons_cons, String.toList_append, String.toList_append, ih]
    cases L <;> simp [List.intercalate_cons_cons]

/-- The types of the parameters as they are written. -/
def typesWritten (m : Method) : List Char :=
  (", ".intercalate (m.effective.map fun p => macroArgument p.type)).toList

/-- The four arguments of the macro. -/
def arguments (m : Method) : List (List Char) :=
  [(macroArgument m.returnType).toList, ' ' :: m.name.toList,
    ' ' :: ('(' :: typesWritten m ++ [')']), ' ' :: ('(' :: m.specifierList.toList ++ [')'])]

/-- The parts of what a line gives to the macro; none unless the parenthesis at its end
closes the one at the beginning. -/
def macroParts? (line : String) : Option (List (List Char)) := do
  let given ← between? "MOCK_METHOD(" ")" line
  if Balanced given.toList then some (parts given.toList) else none

theorem mockMacro_eq (m : Method) : mockMacro m =
    "MOCK_METHOD(" ++ String.ofList ([','].intercalate (arguments m)) ++ ")" := by
  have hcomma : ", ".toList = [',', ' '] := rfl
  have hopen : ", (".toList = [',', ' ', '('] := rfl
  have hnext : "), (".toList = [')', ',', ' ', '('] := rfl
  have hend : "))".toList = [')', ')'] := rfl
  have hclose : ")".toList = [')'] := rfl
  apply String.toList_inj.mp
  unfold mockMacro
  simp only [String.toList_append, String.toList_ofList, hcomma, hopen, hnext, hend, hclose,
    arguments, typesWritten, List.intercalate_cons_cons, List.intercalate_singleton,
    List.append_assoc, List.cons_append, List.nil_append]

/-- Where each of the arguments is sealed, they are the parts. -/
theorem macroParts?_mockMacro {m : Method} (h : ∀ s ∈ arguments m, Sealed s) :
    macroParts? (mockMacro m) = some (arguments m) := by
  have hparts := parts_intercalate h (List.cons_ne_nil _ _)
  have hbalanced := balanced_intercalate h
  rw [macroParts?, mockMacro_eq, between?_append, Option.bind_eq_bind, Option.bind_some,
    String.toList_ofList, if_pos hbalanced, hparts]

/-- The types of the parameters are balanced, with one part for each of them. -/
theorem members_types {m : Method} (h : ∀ p ∈ m.effective, Spelled p.type) :
    Balanced (typesWritten m) ∧
    (members (typesWritten m)).map (fun s => unprotected (trimSpaces s)) =
      m.effective.map fun p => p.type.toList := by
  unfold typesWritten
  cases hparams : m.effective with
  | nil => exact ⟨rfl, rfl⟩
  | cons p ps =>
    rw [hparams] at h
    obtain ⟨hp, hps⟩ := List.forall_mem_cons.mp h
    rw [List.map_cons, toList_intercalate]
    have hsealed : ∀ s ∈ (macroArgument p.type).toList ::
        (ps.map fun p => macroArgument p.type).map fun b => ' ' :: b.toList, Sealed s := by
      rw [List.forall_mem_cons, List.map_map, List.forall_mem_map]
      exact ⟨sealed_macroArgument hp, fun q hq => (sealed_macroArgument (hps q hq)).space⟩
    have hparts := parts_intercalate hsealed (List.cons_ne_nil _ _)
    refine ⟨balanced_intercalate hsealed, ?_⟩
    have hsome : ([','].intercalate ((macroArgument p.type).toList ::
        (ps.map fun p => macroArgument p.type).map fun b => ' ' :: b.toList)).isEmpty = false := by
      obtain ⟨c, cs, hc⟩ := List.exists_cons_of_ne_nil (tight_macroArgument hp).nonempty
      rw [hc]
      cases ps <;> simp [List.intercalate_cons_cons]
    rw [members, hsome, if_neg Bool.false_ne_true, hparts, List.map_cons, List.map_map,
      List.map_map, List.map_cons, trimSpaces_tight (tight_macroArgument hp),
      unprotected_macroArgument]
    refine congrArg (_ :: ·) (List.map_congr_left fun q hq => ?_)
    simp only [Function.comp_apply]
    rw [trimSpaces_space (tight_macroArgument (hps q hq)), unprotected_macroArgument]

/-- An identifier has no character that tells arguments apart. -/
theorem sealed_identifier {n : List Char} (h : isIdentifier n = true) : Sealed n :=
  runs_of_notMem (Text.notMem_of_isIdentifier h (by decide))
    (balanced_of_notMem (Text.notMem_of_isIdentifier h (by decide))
      (Text.notMem_of_isIdentifier h (by decide)))

theorem tight_identifier {n : List Char} (h : isIdentifier n = true) : Tight n := by
  have hspace : ' ' ∉ n := Text.notMem_of_isIdentifier h (by decide)
  exact ⟨Text.ne_nil_of_isIdentifier h, fun hfirst => hspace (List.mem_of_head? hfirst),
    fun hlast => hspace (List.mem_of_getLast? hlast)⟩

theorem balanced_specifiers (m : Method) : Balanced m.specifierList.toList := by
  have hword (c : Char) (hc : c = '(' ∨ c = ')') : c ∉ m.specifierList.toList := by
    refine Path.notMem_intercalate (by rcases hc with rfl | rfl <;> decide) fun s hs => ?_
    obtain ⟨x, -, rfl⟩ := List.mem_map.mp hs
    cases x <;> rcases hc with rfl | rfl <;> decide
  exact balanced_of_notMem (hword '(' (.inl rfl)) (hword ')' (.inr rfl))

/-- **The mock macro has four arguments, and they say what the method is**: its return type,
its name, the types of its parameters as the members of a group, and its specifiers. -/
theorem mockMacro_parts (m : Method) (hname : isIdentifier m.name.toList = true)
    (hreturn : Spelled m.returnType) (hparams : ∀ p ∈ m.effective, Spelled p.type) :
    ∃ a b c d types,
      macroParts? (mockMacro m) = some [a, b, c, d] ∧
      unprotected (trimSpaces a) = m.returnType.toList ∧
      trimSpaces b = m.name.toList ∧
      trimSpaces c = '(' :: types ++ [')'] ∧ Balanced types ∧
      (members types).length = m.effective.length ∧
      (members types).map (fun s => unprotected (trimSpaces s)) =
        m.effective.map (fun p => p.type.toList) ∧
      trimSpaces d = '(' :: m.specifierList.toList ++ [')'] := by
  obtain ⟨hbalanced, htypes⟩ := members_types hparams
  have hsealed : ∀ s ∈ arguments m, Sealed s := by
    simp only [arguments, List.forall_mem_cons]
    exact ⟨sealed_macroArgument hreturn, (sealed_identifier hname).space,
      (sealed_group hbalanced).space, (sealed_group (balanced_specifiers m)).space,
      List.forall_mem_nil _⟩
  refine ⟨_, _, _, _, typesWritten m, macroParts?_mockMacro hsealed, ?_,
    trimSpaces_space (tight_identifier hname), trimSpaces_space (tight_group _), hbalanced, ?_,
    htypes, trimSpaces_space (tight_group _)⟩
  · rw [trimSpaces_tight (tight_macroArgument hreturn), unprotected_macroArgument]
  · simpa using congrArg List.length htypes

/-- A method with commas in its types, in angle brackets and in parentheses. -/
def routeMethod : Method :=
  ⟨"route", "std::map<int, std::pair<int, int>>", [.override, .const],
    [⟨"pick", "std::function<void(int, char)>"⟩, ⟨"", "(int)"⟩, ⟨"to", "const Point&"⟩]⟩

/-- Its macro is taken apart as it was put together. -/
theorem route_parts :
    (isIdentifier routeMethod.name.toList = true ∧ Spelled routeMethod.returnType ∧
      ∀ p ∈ routeMethod.effective, Spelled p.type) ∧
    mockMacro routeMethod = "MOCK_METHOD((std::map<int, std::pair<int, int>>), route, " ++
      "((std::function<void(int, char)>), (int), const Point&), (override, const))" ∧
    ∃ a b c d types,
      macroParts? (mockMacro routeMethod) = some [a, b, c, d] ∧
      unprotected (trimSpaces a) = routeMethod.returnType.toList ∧
      trimSpaces b = routeMethod.name.toList ∧
      trimSpaces c = '(' :: types ++ [')'] ∧ Balanced types ∧
      (members types).length = 3 ∧
      (members types).map (fun s => unprotected (trimSpaces s)) =
        routeMethod.effective.map (fun p => p.type.toList) ∧
      trimSpaces d = "(override, const)".toList := by
  have hname : isIdentifier routeMethod.name.toList = true := by decide +kernel
  have hreturn : Spelled routeMethod.returnType := by decide +kernel
  have hparams : ∀ p ∈ routeMethod.effective, Spelled p.type := by decide +kernel
  exact ⟨⟨hname, hreturn, hparams⟩, by decide +kernel,
    mockMacro_parts routeMethod hname hreturn hparams⟩

end Scaffold.Artifact.MockHeader
