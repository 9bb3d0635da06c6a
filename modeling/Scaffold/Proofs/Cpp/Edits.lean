import Scaffold.Proofs.Cpp.Built
import Scaffold.Proofs.Cpp.Described

/-!
# Editing the parameters of a member

The parameters of a member stand in the function that its declarator declares, inside its
pointers, references and arrays.

* `editFirst` -- one tree of a list is changed: the first with a property; `filter_editFirst`,
  `find?_editFirst`: what this leaves as it is, and what it changes;
* `Tree.edit` -- the first part of a tree in a role is changed; `Tree.inFunction`: the function
  that a declarator declares;
* `peel_inFunction` -- **the layers around a function that is changed stay the same**;
* `method?_editParameters` -- so **a change of the parameters changes nothing else in the method**;
* `cut_editParameters` -- what is cut out of the text of the parameters is cut out of that of
  the member.
-/
namespace Scaffold.Cpp

open Grammar (built)

/-! ## 1. Lists -/

section Lists

variable {p q : Tree → Bool} {f : Tree → Tree} {u : Tree}

/-- Changes the first tree of a list with the property. -/
def editFirst (p : Tree → Bool) (f : Tree → Tree) : List Tree → List Tree
  | [] => []
  | t :: ts => if p t then f t :: ts else t :: editFirst p f ts

/-- The trees that are told in the same way, and are not changed where they are looked at, stay
the same. -/
theorem filter_editFirst (h : ∀ t, p t = true → q (f t) = q t ∧ (q t = true → f t = t))
    (ts : List Tree) : (editFirst p f ts).filter q = ts.filter q := by
  induction ts with
  | nil => rfl
  | cons t ts ih =>
    rw [editFirst]
    split
    · rename_i hp
      obtain ⟨hsame, hkept⟩ := h t hp
      rw [List.filter_cons, List.filter_cons, hsame]
      split
      · rename_i hq
        rw [hkept hq]
      · rfl
    · rw [List.filter_cons, List.filter_cons, ih]

theorem find?_editFirst_other (h : ∀ t, p t = true → q (f t) = q t ∧ (q t = true → f t = t))
    (ts : List Tree) : (editFirst p f ts).find? q = ts.find? q := by
  rw [← List.head?_filter, ← List.head?_filter, filter_editFirst h]

/-- The tree that is changed is found in its place. -/
theorem find?_editFirst (h : ∀ t, p (f t) = p t) (ts : List Tree) :
    (editFirst p f ts).find? p = (ts.find? p).map f := by
  induction ts with
  | nil => rfl
  | cons t ts ih =>
    rw [editFirst]
    split
    · rename_i hp
      rw [List.find?_cons_of_pos ((h t).trans hp), List.find?_cons_of_pos hp]
      rfl
    · rename_i hp
      rw [List.find?_cons_of_neg hp, List.find?_cons_of_neg hp, ih]

/-- The first tree stays the first if it is not changed where it is looked at. -/
theorem head?_editFirst {ts : List Tree} (h : ∀ t ∈ ts.head?, f t = t) :
    (editFirst p f ts).head? = ts.head? := by
  cases ts with
  | nil => rfl
  | cons t ts =>
    rw [editFirst, h t rfl]
    split <;> rfl

theorem editFirst_eq {ts : List Tree} (h : ts.find? p = some u) :
    ∃ before after, ts = before ++ u :: after ∧ editFirst p f ts = before ++ f u :: after := by
  induction ts with
  | nil => cases h
  | cons t ts ih =>
    rw [editFirst]
    split
    · rename_i hp
      rw [List.find?_cons_of_pos hp] at h
      obtain rfl := Option.some.inj h
      exact ⟨[], ts, rfl, rfl⟩
    · rename_i hp
      rw [List.find?_cons_of_neg hp] at h
      obtain ⟨before, after, hts, hedit⟩ := ih h
      exact ⟨t :: before, after, by rw [hts]; rfl, by rw [hedit]; rfl⟩

end Lists

namespace Tree

/-! ## 2. Trees -/

/-- A change of trees that does not change what they stand for. -/
structure Keeps (f : Tree → Tree) : Prop where
  kind : ∀ t, (f t).kind = t.kind
  role : ∀ t, (f t).role = t.role

/-- Changes the first part in a role. -/
def edit (r : Role) (f : Tree → Tree) : Tree → Tree
  | .leaf k role lead text => .leaf k role lead text
  | .node k role cs => .node k role (editFirst (·.role == some r) f cs)

mutual

/-- Changes the function that a declarator declares. -/
def inFunction (f : Tree → Tree) : Tree → Tree
  | .leaf k r lead text =>
    if k == .functionDeclarator then f (.leaf k r lead text) else .leaf k r lead text
  | .node k r cs =>
    if k == .functionDeclarator then f (.node k r cs)
    else .node k r (inFirst f (leads k) cs)

/-- The same in the first tree of the list with the property. -/
def inFirst (f : Tree → Tree) (p : Tree → Bool) : List Tree → List Tree
  | [] => []
  | t :: ts => if p t then inFunction f t :: ts else t :: inFirst f p ts

end

variable {f : Tree → Tree} {t u : Tree} {r : Role} {k : Kind}
  {r' : Option Role} {cs : List Tree}

theorem inFirst_eq (f : Tree → Tree) (p : Tree → Bool) (cs : List Tree) :
    inFirst f p cs = editFirst p (inFunction f) cs := by
  induction cs with
  | nil => rfl
  | cons t cs ih => rw [inFirst, editFirst, ih]

theorem inFunction_function (h : t.kind = .functionDeclarator) : t.inFunction f = f t := by
  cases t with
  | leaf k r lead text =>
    obtain rfl : k = .functionDeclarator := h
    rfl
  | node k r cs =>
    obtain rfl : k = .functionDeclarator := h
    rfl

theorem inFunction_node (h : k ≠ .functionDeclarator) (r : Option Role) (cs : List Tree) :
    (Tree.node k r cs).inFunction f = .node k r (editFirst (leads k) (inFunction f) cs) := by
  rw [inFunction, if_neg (by simpa using h), inFirst_eq]

theorem keeps_edit (r : Role) (f : Tree → Tree) : Keeps (edit r f) := by
  constructor <;> intro t <;> cases t <;> rfl

theorem keeps_inFunction (h : Keeps f) : Keeps (inFunction f) := by
  have hboth (t : Tree) : (t.inFunction f).kind = t.kind ∧ (t.inFunction f).role = t.role := by
    by_cases hkind : t.kind = .functionDeclarator
    · rw [inFunction_function hkind]
      exact ⟨h.kind t, h.role t⟩
    · cases t with
      | leaf k r lead text =>
        rw [inFunction, if_neg (by simpa [Tree.kind] using hkind)]
        exact ⟨rfl, rfl⟩
      | node k r cs =>
        have hk : k ≠ .functionDeclarator := hkind
        rw [inFunction_node hk]
        exact ⟨rfl, rfl⟩
  exact ⟨fun t => (hboth t).1, fun t => (hboth t).2⟩

theorem Keeps.isNamed (h : Keeps f) (t : Tree) : (f t).isNamed = t.isNamed := by
  rw [Tree.isNamed, Tree.isNamed, h.kind]

theorem Keeps.leads (h : Keeps f) (k : Kind) (t : Tree) : leads k (f t) = leads k t := by
  cases k <;> first | rfl | exact h.isNamed t | exact congrArg (· == some .declarator) (h.role t)

/-- Where nothing leads on, nothing is changed. -/
theorem inFunction_of_other (h : t.kind ≠ .functionDeclarator)
    (hleads : Tree.leads t.kind = fun _ => false) : t.inFunction f = t := by
  have hnone (cs : List Tree) : editFirst (fun _ => false) (inFunction f) cs = cs := by
    induction cs with
    | nil => rfl
    | cons t cs ih => rw [editFirst, if_neg Bool.false_ne_true, ih]
  cases t with
  | leaf k r lead text => rw [inFunction, if_neg (by simpa [Tree.kind] using h)]
  | node k r cs =>
    have hk : k ≠ .functionDeclarator := h
    have hfrom : Tree.leads k = fun _ => false := hleads
    rw [inFunction_node hk, hfrom, hnone]

/-! ## 3. Layers -/

theorem added?_of_function (h : t.kind = .functionDeclarator) : t.added? = none := by
  cases t with
  | leaf k r lead text => rfl
  | node k r cs =>
    obtain rfl : k = .functionDeclarator := h
    rfl

/-- A layer adds the same when the function inside it is changed. -/
theorem added?_inFunction (hf : Keeps f) (h : built.Holds (.node k r' cs)) :
    (Tree.node k r' (editFirst (leads k) (inFunction f) cs)).added? =
      (Tree.node k r' cs).added? := by
  have hkeeps := keeps_inFunction hf
  have hqualifiers : pointerQualifiers (editFirst (·.role == some .declarator) (inFunction f) cs) =
      pointerQualifiers cs := by
    rw [pointerQualifiers_eq, pointerQualifiers_eq, filter_editFirst]
    refine fun t _ => ⟨by rw [hkeeps.kind], fun hkind => ?_⟩
    have hqualifier : t.kind = .typeQualifier := eq_of_beq hkind
    exact inFunction_of_other (by rw [hqualifier]; decide) (by rw [hqualifier]; rfl)
  have hsize : (Tree.node k r' (editFirst (·.role == some .declarator) (inFunction f) cs)).child?
      .size = (Tree.node k r' cs).child? .size := by
    refine find?_editFirst_other (fun t ht => ⟨by rw [hkeeps.role], fun hrole => ?_⟩) cs
    rw [eq_of_beq ht] at hrole
    cases hrole
  have hmark (hhead : ∃ t ∈ cs.head?, Grammar.heads t) :
      (editFirst isNamed (inFunction f) cs).head? = cs.head? := by
    refine head?_editFirst fun t ht => ?_
    obtain ⟨u, hu, hheads⟩ := hhead
    obtain rfl := Option.mem_unique ht hu
    obtain ⟨lead, text, rfl | ⟨-, rfl⟩⟩ := hheads <;> rfl
  have hroot := (Law.holds_iff.mp h).1
  cases k
  case pointerDeclarator | abstractPointerDeclarator =>
    exact congrArg (fun added => some ('*' :: added)) hqualifiers
  case referenceDeclarator | abstractReferenceDeclarator =>
    exact congrArg (fun first => some ((first.map text).getD ['&'])) (hmark hroot)
  case arrayDeclarator | abstractArrayDeclarator =>
    exact congrArg (fun size => some ('[' :: (size.map text).getD [] ++ [']'])) hsize
  all_goals rfl

/-- **The layers around a function that is changed stay the same.** -/
theorem peel_inFunction (hf : Keeps f) : ∀ t : Tree, built.Holds t →
    ∀ u, t.peel.inner = some u → u.kind = .functionDeclarator →
      (t.inFunction f).peel = ⟨some (f u), t.peel.suffix⟩ := by
  intro t
  induction t using layer_induction with
  | _ t ih =>
    intro h u hu hkind
    cases hadded : t.added? with
    | none =>
      rw [peel_of_none hadded] at hu ⊢
      obtain rfl := Option.some.inj hu
      rw [inFunction_function hkind]
      exact peel_of_none (added?_of_function ((hf.kind t).trans hkind))
    | some added =>
      cases t with
      | leaf k r lead text => cases hadded
      | node k r cs =>
        have hk : k ≠ .functionDeclarator := by
          rintro rfl
          cases hadded
        have hnext : (Tree.node k r (editFirst (leads k) (inFunction f) cs)).next? =
            (Tree.node k r cs).next?.map (inFunction f) :=
          find?_editFirst ((keeps_inFunction hf).leads k) cs
        have hinner := hu
        rw [peel_of_added hadded] at hinner
        obtain ⟨v, hv, hinner⟩ := Option.bind_eq_some_iff.mp hinner
        have hinside := ih v hv (h.part (.inside .whole (mem_of_next? hv))) u hinner hkind
        rw [inFunction_node hk, peel_of_added ((added?_inFunction hf h).trans hadded), hnext,
          peel_of_added hadded, hv, Option.map_some, Option.bind_some, Option.map_some,
          Option.map_some, hinside]

/-! ## 4. What stays around an edit -/

variable {s : Role}

theorem children_edit (r : Role) (f : Tree → Tree) (t : Tree) :
    (t.edit r f).children = editFirst (·.role == some r) f t.children := by
  cases t <;> rfl

theorem child?_edit (hf : Keeps f) (r : Role) (t : Tree) :
    (t.edit r f).child? r = (t.child? r).map f := by
  rw [child?, children_edit, find?_editFirst fun u => by rw [hf.role]]
  rfl

theorem child?_edit_other (hf : Keeps f) (h : r ≠ s) (t : Tree) :
    (t.edit r f).child? s = t.child? s := by
  rw [child?, children_edit]
  refine find?_editFirst_other (fun u hu => ⟨by rw [hf.role], fun hs => ?_⟩) t.children
  exact absurd (Option.some.inj ((eq_of_beq hu).symm.trans (eq_of_beq hs))) h

/-- A kind of trees that are not changed. -/
def Spares (f : Tree → Tree) (k : Kind) : Prop := ∀ t, t.kind = k → f t = t

theorem childOf?_edit (hf : Keeps f) (hk : Spares f k) (r : Role) (t : Tree) :
    (t.edit r f).childOf? k = t.childOf? k := by
  rw [childOf?, children_edit]
  exact find?_editFirst_other (fun u _ => ⟨by rw [hf.kind], fun hu => hk u (eq_of_beq hu)⟩) _

/-- The named trees of a kind. -/
theorem namedChildren_edit (hf : Keeps f) (hk : Spares f k) (r : Role) (t : Tree) :
    (t.edit r f).namedChildren.filter (·.kind == k) = t.namedChildren.filter (·.kind == k) := by
  rw [namedChildren, namedChildren, List.filter_filter, List.filter_filter, children_edit]
  refine filter_editFirst (fun u _ => ⟨by rw [hf.kind, hf.isNamed], fun hu => ?_⟩) _
  exact hk u (eq_of_beq (Bool.and_eq_true_iff.mp hu).1)

theorem spares_inFunction (h : k ≠ .functionDeclarator) (hleads : Tree.leads k = fun _ => false) :
    Spares (inFunction f) k := by
  rintro t rfl
  exact inFunction_of_other h hleads

/-- Changes the parameters of a member. -/
def editParameters (f : Tree → Tree) (t : Tree) : Tree :=
  t.edit .declarator (inFunction (edit .parameters f))

/-- What is changed in a list of parameters changes no other tree. -/
structure InParameters (f : Tree → Tree) : Prop extends Keeps f where
  other : ∀ t, t.kind ≠ .parameterList → f t = t

theorem InParameters.spares (h : InParameters f) (hk : k ≠ .parameterList) : Spares f k := by
  rintro t rfl
  exact h.other t hk

/-- What a member returns stays the same. -/
theorem returned_editParameters (hf : InParameters f) (t type : Tree) (suffix : List Char)
    (function : Tree) :
    (t.editParameters f).returned type suffix (function.edit .parameters f) =
      t.returned type suffix function := by
  have hspelled : spellType (t.editParameters f) type suffix = spellType t type suffix := by
    unfold spellType
    rw [editParameters, namedChildren_edit (keeps_inFunction (keeps_edit .parameters f))
      (spares_inFunction (by decide) rfl)]
  rw [returned, childOf?_edit hf.toKeeps (hf.spares (by decide)), hspelled]
  rfl

/-- And so do its specifiers. -/
theorem specified_editParameters (hf : InParameters f) (t function : Tree) :
    (t.editParameters f).specified (function.edit .parameters f) = t.specified function := by
  have hkeeps := keeps_inFunction (keeps_edit .parameters f)
  have hconst (u : Tree) : (u.namedChildren.any fun c =>
      c.kind == .typeQualifier && c.text == "const".toList) =
      (u.namedChildren.filter (·.kind == .typeQualifier)).any (·.text == "const".toList) :=
    List.any_filter.symm
  rw [specified, specified, hconst, hconst, editParameters,
    childOf?_edit hkeeps (spares_inFunction (by decide) rfl),
    childOf?_edit hkeeps (spares_inFunction (by decide) rfl),
    childOf?_edit hf.toKeeps (hf.spares (by decide)),
    namedChildren_edit hf.toKeeps (hf.spares (by decide))]

/-- **A change of the parameters changes nothing else in the method.** -/
theorem method?_editParameters (P : MethodParts t) (h : built.Holds t) (hf : InParameters f) :
    (t.editParameters f).method? = some { P.method with
      parameters := ((P.function.child? .parameters).map (parameterList <| f ·)).getD [] } := by
  have hedit := keeps_edit .parameters f
  have hkeeps := keeps_inFunction hedit
  have hpeel := peel_inFunction hedit P.declarator (h.part (.child .whole P.hasDeclarator))
    P.function P.declares P.isFunction
  let Q : MethodParts (t.editParameters f) :=
    { type := P.type
      declarator := P.declarator.inFunction (edit .parameters f)
      function := P.function.edit .parameters f
      name := P.name
      hasType := (child?_edit_other hkeeps (by decide) t).trans P.hasType
      hasDeclarator := by rw [editParameters, child?_edit hkeeps, P.hasDeclarator]; rfl
      declares := by rw [hpeel]
      isFunction := (hedit.kind _).trans P.isFunction
      hasName := (child?_edit_other hf.toKeeps (by decide) _).trans P.hasName
      isPlain := P.isPlain }
  have hparameters : ((P.function.edit .parameters f).child? .parameters).map parameterList =
      (P.function.child? .parameters).map (parameterList <| f ·) := by
    rw [child?_edit hf.toKeeps, Option.map_map]
    rfl
  rw [Q.method?_eq, MethodParts.method, MethodParts.method]
  dsimp only [Q]
  rw [hpeel, returned_editParameters hf, specified_editParameters hf, hparameters]
  rfl

/-! ## 5. Texts -/

/-- A text without a part of it. -/
def Cut (part whole rest : List Char) : Prop :=
  ∃ before behind, whole = before ++ part ++ behind ∧ rest = before ++ behind

variable {part : List Char}

theorem Cut.around {whole rest : List Char} (h : Cut part whole rest) (as bs : List Char) :
    Cut part (as ++ whole ++ bs) (as ++ rest ++ bs) := by
  obtain ⟨before, behind, rfl, rfl⟩ := h
  exact ⟨as ++ before, behind ++ bs, by simp, by simp⟩

/-- What is cut out of a tree is cut out of the list that it stands in. -/
theorem cut_editFirst {p : Tree → Bool} (hu : cs.find? p = some u)
    (h : Cut part u.spelling (f u).spelling) :
    Cut part (spellings cs) (spellings (editFirst p f cs)) := by
  obtain ⟨before, after, hcs, hedit⟩ := editFirst_eq (f := f) hu
  rw [hedit, hcs, spellings_append, spellings_append, spellings, spellings, ← List.append_assoc,
    ← List.append_assoc]
  exact h.around (spellings before) (spellings after)

theorem cut_edit (hu : t.child? r = some u) (h : Cut part u.spelling (f u).spelling) :
    Cut part t.spelling (t.edit r f).spelling := by
  cases t with
  | leaf k role lead text => cases hu
  | node k role cs =>
    rw [edit, spelling, spelling]
    exact cut_editFirst hu h

theorem cut_inFunction (h : Cut part u.spelling (f u).spelling)
    (hkind : u.kind = .functionDeclarator) :
    ∀ t : Tree, t.peel.inner = some u → Cut part t.spelling (t.inFunction f).spelling := by
  intro t
  induction t using layer_induction with
  | _ t ih =>
    intro hu
    cases hadded : t.added? with
    | none =>
      rw [peel_of_none hadded] at hu
      obtain rfl := Option.some.inj hu
      rwa [inFunction_function hkind]
    | some added =>
      rw [peel_of_added hadded] at hu
      obtain ⟨v, hv, hinner⟩ := Option.bind_eq_some_iff.mp hu
      cases t with
      | leaf k r lead text => cases hadded
      | node k r cs =>
        have hk : k ≠ .functionDeclarator := by
          rintro rfl
          cases hadded
        rw [inFunction_node hk, spelling, spelling]
        exact cut_editFirst hv (ih v hv hinner)

/-- **What is cut out of the parameters is cut out of the member.** -/
theorem cut_editParameters (P : MethodParts t) (hu : P.function.child? .parameters = some u)
    (h : Cut part u.spelling (f u).spelling) :
    Cut part t.spelling (t.editParameters f).spelling :=
  cut_edit P.hasDeclarator (cut_inFunction (cut_edit hu h) P.isFunction P.declarator P.declares)

end Tree

end Scaffold.Cpp
