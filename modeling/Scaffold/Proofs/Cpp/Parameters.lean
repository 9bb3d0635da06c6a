import Scaffold.Proofs.Cpp.TypeTexts

/-!
# Parameters as they are described

A parameter is written as its type, and behind it its name if it has one.

* `ParameterText` -- a parameter that is written like this;
* `takes_unnamed`, `takes_named` -- the grammar reads what is behind the type as a declarator
  without a name or with one, and neither as a pack;
* `takes_parameter` -- **what is described of a parameter is the parameter with its bounds
  turned**;
* `takes_parameters` -- and so is what is described of a list of parameters.
-/
namespace Scaffold.Cpp

open Grammar
open Pattern
open Text (isWord)

variable {ts us rest : List Token} {t u : Token} {a b : List Tree} {lead w : List Char} {k : Kind}

/-- A parameter as a description spells it. -/
structure ParameterText where
  type : TypeText
  /-- The name; empty for an unnamed parameter. -/
  name : List Char

namespace ParameterText

/-- The tokens, behind a blank space. -/
def tokens (p : ParameterText) (lead : List Char) : List Token :=
  p.type.tokens lead ++ if p.name.isEmpty then [] else [wordToken [' '] p.name]

/-- The parameter with the bounds of its type from the last one to the first. -/
def turned (p : ParameterText) : ParameterText := { p with type := p.type.turned }

/-- The parameter that is described. -/
def parameter (p : ParameterText) : Parameter :=
  ⟨String.ofList p.name, String.ofList p.type.text⟩

/-- It is written as a description writes it; bounds have no place in front of a name. -/
structure Valid (p : ParameterText) : Prop where
  type : p.type.Valid
  name : p.name = [] ∨ IsName p.name ∧ p.type.layers.Boundless

end ParameterText

/-! ## 1. Declarators without a name -/

namespace Layers

/-- Behind a parameter. -/
def parameterEnds : List Look := [.mark ',', .mark ')']

theorem ends_of_parameterEnds (h : Ahead parameterEnds rest) : Ahead ends rest :=
  h.mono (by simp [parameterEnds, ends])

/-- Without a name no declarator with a name is read. -/
theorem fails_declarator {L : Layers} (hL : L.Valid) (hrest : Ahead ends rest) :
    Fails grammar (.rule (.declarator .identifier)) (L.tokens ++ rest) := by
  have hnone : Fails grammar (.rule (.declarator .identifier)) rest :=
    fails_of_ahead hrest (by decide)
  have hreference {us : List Token} {a : List Tree} (lead : List Char) (h : Takes grammar
      (.alts [.mark "&&", .mark "&"]) (markToken lead '&' :: us) a rest) :
      Fails grammar (.rule (.declarator .identifier)) (markToken lead '&' :: us) := by
    refine .rule (.behind (.star_nil (fails_of_glance sees_mark (by decide))) (.cons
      (.next (fails_pointer lead us) (.next (.node (.behind h hnone.cons)) (.next ?_
        (.alts (List.forall_mem_nil _)))))))
    exact fails_of_glance sees_mark (by decide)
  induction L with
  | nil => exact hnone
  | bounds s ss => exact fails_bounds s ss rest (by decide)
  | lvalue lead =>
    exact hreference lead (takes_lvalue lead (hrest.mono fun _ => List.mem_cons_of_mem _))
  | rvalue lead => exact hreference lead (takes_rvalue lead rest)
  | pointer lead qs inner ih =>
    obtain ⟨hqs, hinner⟩ := hL
    have hinside := inner.ahead_tokens hrest
    have hinside' := ahead_qualifiers hqs hinside
    have hparts : Fails grammar (.seq [.mark "*", .star (keyword pointerWords),
        .star (.rule .qualifier), .role .declarator (.rule (.declarator .identifier))])
        (markToken lead '*' :: (qs ++ (inner.tokens ++ rest))) :=
      .behind (takes_mark rfl) (.behind (.star_nil (fails_of_ahead hinside' (by decide)))
        (.behind (takes_qualifiers hqs (fails_of_ahead hinside (by decide)))
          (ih hinner).role.cons))
    rw [tokens, List.cons_append, List.append_assoc]
    refine .rule (.behind (.star_nil (fails_of_glance sees_mark (by decide))) (.cons
      (.next (.node hparts) (.next ?_ (.next ?_ (.alts (List.forall_mem_nil _)))))))
    · exact fails_of_glance sees_mark (by decide)
    · exact fails_of_glance sees_mark (by decide)

end Layers

/-! ## 2. Names -/

/-- Behind a declared name. -/
def nameStops : List Look := [.mark ',', .mark ')', .mark '(']

/-- **A name is read as a declared name.** -/
theorem takes_plainName (hw : IsName w) (lead : List Char) (hrest : Ahead nameStops rest)
    (hk : k = .identifier ∨ k = .fieldIdentifier) :
    Takes grammar (.rule (.plainDeclarator k)) (wordToken lead w :: rest)
      [(wordToken lead w).leaf k] rest := by
  have hname := hw.fits lead
  have hnone : Fails grammar (.seq [.angles, .rule .templateArguments]) rest :=
    fails_of_ahead hrest (by decide)
  have hdeclared : Takes grammar (declaredName k declaratorWords) (wordToken lead w :: rest)
      [(wordToken lead w).leaf k] rest := by
    refine .next (fails_of_glance (sees_one hname) (by decide))
      (.next (fails_of_glance (sees_one hname) (by decide))
        (.first (.cons (takes_look rfl hname ?_) (.last (.next hnone (.first .nil))))))
    rcases hk with rfl | rfl <;> decide
  refine .rule (.next ?_ (.next ?_ (.first
    (.shapeless_front (splitComments_of_ne hname.ne_comment) hdeclared ?_))))
  · exact fails_of_glance (sees_one hname) (by decide)
  · rcases hk with rfl | rfl <;> exact fails_of_ahead₂ hname hrest (by decide)
  · rcases hk with rfl | rfl <;> rfl

/-- The name of a parameter. -/
theorem takes_parameterName (hw : IsName w) (lead : List Char)
    (hrest : Ahead Layers.parameterEnds rest) : Takes grammar (.rule (.declarator .identifier))
      (wordToken lead w :: rest) [(wordToken lead w).leaf .identifier] rest := by
  have hname := hw.fits lead
  have hplain := takes_plainName hw lead (hrest.mono (by simp [Layers.parameterEnds, nameStops]))
    (.inl rfl)
  have htails : ∀ t ∈ declaratorTails, Fails grammar t.2 rest :=
    fails_tails_of_ahead hrest (by decide)
  refine .rule (.skip (.star_nil ?_) (.last (.next ?_ (.next ?_ (.first (.grow (.next ?_
    (.first hplain)) (grows_nil htails)))))))
  all_goals exact fails_of_glance (sees_one hname) (by decide)

/-! ## 3. What is behind a type -/

/-- A pack of parameters. -/
def packName : P :=
  .node .variadicDeclarator (.seq [.mark "...", opt (.name .identifier declaratorWords)])

/-- The declarator of a parameter, with a name or without. -/
def parameterDeclarator : P :=
  opt (.role .declarator (.alts
    [.seq [.rule (.declarator .identifier),
       .ahead (.alts [.mark ",", .mark ")", .mark "=", .rule .attribute])],
     .rule .abstractDeclarator]))

/-- What comes behind the type of a parameter. -/
def parameterRest : P :=
  .alts
    [.role .declarator packName,
     .role .declarator (.node .referenceDeclarator
       (.seq [.alts [.mark "&&", .mark "&"], packName])),
     .seq
       [parameterDeclarator, .star (.rule .attribute),
        opt (.seq [equals, .role .value (.alts [.rule (.expression false)])])]]

/-- **No pack is read** where there is none. -/
theorem fails_pack (L : Layers) (hrest : Ahead (.name :: Layers.ends) rest) :
    Fails grammar (.role .declarator packName) (L.tokens ++ rest) ∧
      Fails grammar (.role .declarator (.node .referenceDeclarator
        (.seq [.alts [.mark "&&", .mark "&"], packName]))) (L.tokens ++ rest) := by
  refine ⟨L.fails_tokens hrest (by decide) (by decide), .role ?_⟩
  have hnone : Fails grammar packName rest := fails_of_ahead hrest (by decide)
  cases L with
  | nil => exact fails_of_ahead hrest (by decide)
  | bounds s ss => exact Layers.fails_bounds s ss rest (by decide)
  | pointer _ _ _ => exact fails_of_glance sees_mark (by decide)
  | lvalue lead => exact .node (.behind (Layers.takes_lvalue lead hrest) hnone.cons)
  | rvalue lead => exact .node (.behind (Layers.takes_rvalue lead rest) hnone.cons)

/-- A declarator of a parameter is read up to what is behind the parameter. -/
theorem takes_parameterRest (L : Layers) {ts : List Token} (hts : Ahead (.name :: Layers.ends) ts)
    (hrest : Ahead Layers.parameterEnds rest)
    (h : Takes grammar parameterDeclarator (L.tokens ++ ts) a rest) :
    Takes grammar parameterRest (L.tokens ++ ts) a rest := by
  obtain ⟨hpack, hreference⟩ := fails_pack L hts
  have hend : Takes grammar (.seq [.star (.rule .attribute),
      opt (.seq [equals, .role .value (.alts [.rule (.expression false)])])]) rest [] rest :=
    .skip (.star_nil (fails_of_ahead hrest (by decide)))
      (.last (.next (fails_of_ahead hrest (by decide)) (.first .nil)))
  have hall := h.append hend
  rw [List.append_nil] at hall
  exact .next hpack (.next hreference (.first hall))

/-- No pack stands inside the tree. -/
def Tree.NoPack (t : Tree) : Prop :=
  t.kind ≠ .variadicDeclarator ∧
    (t.kind = .referenceDeclarator → hasKind .variadicDeclarator t.children = false)

/-- A tree of another kind is no pack and has none inside. -/
theorem Tree.NoPack.of_kind {t : Tree} {k : Kind} (h : t.kind = k)
    (hk : k ≠ .variadicDeclarator ∧ k ≠ .referenceDeclarator) : t.NoPack := by
  subst h
  exact ⟨hk.1, fun heq => absurd heq hk.2⟩

/-- What is known of the declarator of a parameter. -/
structure ParameterText.Declares (p : ParameterText) (ds : List Tree) : Prop where
  role : ∀ d ∈ ds, d.role = some .declarator
  noPack : ∀ d ∈ ds, d.NoPack
  kind : ∀ d ∈ ds, d.kind ≠ .typeQualifier
  quiet : ∀ d ∈ ds, d.Quiet
  suffix : (ds.head?.map (·.peel.suffix)).getD [] = p.type.layers.suffix
  inner : p.name = [] ∧ ds.head?.bind (·.peel.inner) = none ∨
    ∃ u, ds.head?.bind (·.peel.inner) = some u ∧ u.kind = .identifier ∧ u.text = p.name

variable {p : ParameterText}

theorem ParameterText.Declares.single {x : Tree} (hquiet : x.Quiet) (hpack : x.NoPack)
    (hkind : x.kind ≠ .typeQualifier)
    (hsuffix : (x.withRole .declarator).peel.suffix = p.type.layers.suffix)
    (hinner : p.name = [] ∧ (x.withRole .declarator).peel.inner = none ∨
      ∃ u, (x.withRole .declarator).peel.inner = some u ∧ u.kind = .identifier ∧
        u.text = p.name) : p.Declares [x.withRole .declarator] where
  role := List.forall_mem_singleton.mpr (Tree.role_withRole _ _)
  noPack := List.forall_mem_singleton.mpr (by cases x <;> exact hpack)
  kind := List.forall_mem_singleton.mpr (by rwa [Tree.kind_withRole])
  quiet := List.forall_mem_singleton.mpr (hquiet.withRole .declarator)
  suffix := hsuffix
  inner := hinner

/-- **Behind the type of an unnamed parameter a declarator without a name is read.** -/
theorem takes_unnamed (hp : p.Valid) (hname : p.name = [])
    (hrest : Ahead Layers.parameterEnds rest) :
    ∃ ds, p.Declares ds ∧
      Takes grammar parameterRest (p.type.layers.tokens ++ rest) ds rest := by
  have hends := Layers.ends_of_parameterEnds hrest
  have hnone : Fails grammar (.seq [.rule (.declarator .identifier),
      .ahead (.alts [.mark ",", .mark ")", .mark "=", .rule .attribute])])
      (p.type.layers.tokens ++ rest) := .cons (Layers.fails_declarator hp.type.layers hends)
  have hread {ds : List Tree} (h : Takes grammar parameterDeclarator (p.type.layers.tokens ++ rest)
      ds rest) : Takes grammar parameterRest (p.type.layers.tokens ++ rest) ds rest :=
    takes_parameterRest _ (hends.mono fun _ => List.mem_cons_of_mem _) hrest h
  cases hx : p.type.layers.tree? with
  | none =>
    obtain ⟨htokens, hnil⟩ := Layers.tokens_of_none hx
    refine ⟨[], ⟨nofun, nofun, nofun, nofun, by rw [hnil]; rfl, .inl ⟨hname, rfl⟩⟩, hread ?_⟩
    rw [htokens] at hnone ⊢
    exact .next (.role (.next hnone (.next (Layers.fails_abstract hends)
      (.alts (List.forall_mem_nil _))))) (.first .nil)
  | some x =>
    have hpeel := Layers.peel_tree hx .declarator
    have hquiet := (Layers.spell_tree hx).quiet x (List.mem_singleton_self x)
    refine ⟨[x.withRole .declarator], .single hquiet ?_ ?_ (congrArg Peeled.suffix hpeel)
      (.inl ⟨hname, congrArg Peeled.inner hpeel⟩), hread (.first (.role (.next hnone (.first
        (Layers.takes_tree hp.type.layers hx hends)))))⟩
    · rcases Layers.kind_tree hx with h | h | h <;> exact .of_kind h (by decide)
    · rcases Layers.kind_tree hx with h | h | h <;> rw [h] <;> nofun

/-- **In front of the name of a parameter pointers and references are read around it.** -/
theorem takes_named (hp : p.Valid) (hname : IsName p.name) (hbounds : p.type.layers.Boundless)
    (hrest : Ahead Layers.parameterEnds rest) : ∃ ds, p.Declares ds ∧
      Takes grammar parameterRest (p.type.layers.tokens ++ wordToken [' '] p.name :: rest) ds
        rest := by
  have hword := takes_parameterName hname [' '] hrest
  have hsees : Sees [.name] (wordToken [' '] p.name :: rest) := sees_one (hname.fits [' '])
  have haround := Layers.takes_around hp.type.layers hbounds hsees hword
  obtain ⟨r, hpeel⟩ := Layers.peel_around hbounds
    (d := (wordToken [' '] p.name).leaf .identifier) rfl rfl nofun .declarator
  obtain ⟨b, us, hahead⟩ := takes_of_ahead hrest
    (p := .alts [.mark ",", .mark ")", .mark "=", .rule .attribute]) (by decide)
  refine ⟨[(p.type.layers.around ((wordToken [' '] p.name).leaf .identifier)).withRole .declarator],
    ?_, takes_parameterRest _ ⟨_, List.mem_cons_self, hsees⟩ hrest
      (.first (.role (.first (.cons haround hahead.ahead.last))))⟩
  refine .single (p.type.layers.quiet_around .leaf) ?_ ?_ (congrArg Peeled.suffix hpeel)
    (.inr ⟨_, congrArg Peeled.inner hpeel, rfl, rfl⟩)
  rotate_left
  · rcases p.type.layers.kind_around ((wordToken [' '] p.name).leaf .identifier) with h | h | h <;>
      rw [h] <;> nofun
  cases p.type.layers with
  | nil | bounds _ _ | pointer _ _ _ => exact ⟨nofun, nofun⟩
  | lvalue _ | rvalue _ => exact ⟨nofun, fun _ => rfl⟩

/-! ## 4. Parameters -/

/-- The type of a declaration behind trees that play no role. -/
theorem child?_type (k : Kind) {front : List Tree} (hfront : ∀ t ∈ front, t.role = none) (y : Tree)
    (more : List Tree) :
    (Tree.node k none (front ++ y.withRole .type :: more)).child? .type =
      some (y.withRole .type) := by
  have hnone : front.find? (·.role == some .type) = none :=
    List.find?_eq_none.mpr fun t ht => by rw [hfront t ht]; nofun
  rw [Tree.child?, Tree.children, List.find?_append, hnone, Option.none_or,
    List.find?_cons_of_pos (by simp)]

/-- What comes behind the type. -/
theorem child?_behind (k : Kind) {front : List Tree} (hfront : ∀ t ∈ front, t.role = none)
    (y : Tree) (more : List Tree) {r : Role} (hr : r ≠ .type) :
    (Tree.node k none (front ++ y.withRole .type :: more)).child? r =
      more.find? (·.role == some r) := by
  have hnone : front.find? (·.role == some r) = none :=
    List.find?_eq_none.mpr fun t ht => by rw [hfront t ht]; nofun
  rw [Tree.child?, Tree.children, List.find?_append, hnone, Option.none_or,
    List.find?_cons_of_neg (by simpa using hr.symm)]

/-- The qualifiers of a declaration stand in front of its type. -/
theorem qualifiers_eq (k : Kind) (front : List Tree) {y : Tree} (hy : y.kind.isTypal = true)
    {more : List Tree} (hmore : ∀ t ∈ more, t.kind ≠ .typeQualifier) :
    (Tree.node k none (front ++ y.withRole .type :: more)).namedChildren.filter
      (·.kind == .typeQualifier) = front.filter (·.kind == .typeQualifier) := by
  have hkind : (y.withRole .type).kind ≠ .typeQualifier := by
    rw [Tree.kind_withRole]
    rintro h
    rw [h] at hy
    cases hy
  have hbehind : (y.withRole .type :: more).filter (·.kind == .typeQualifier) = [] :=
    List.filter_eq_nil_iff.mpr (List.forall_mem_cons.mpr
      ⟨by simpa using hkind, fun t ht => by simpa using hmore t ht⟩)
  have hnamed : ∀ t : Tree, (t.kind == .typeQualifier && t.isNamed) =
      (t.kind == .typeQualifier) := by
    intro t
    cases h : t.kind <;> simp [Tree.isNamed, h]
  rw [Tree.namedChildren, Tree.children, List.filter_filter, List.filter_congr fun t _ => hnamed t,
    List.filter_append, hbehind, List.append_nil]

/-- **What is described of a parameter** is the parameter with its bounds turned. -/
theorem parameter?_text (hp : p.Valid) {qs : List Token} (hqs : qs.map (·.text) = p.type.qualifiers)
    {y : Tree} (hy : y.kind.isTypal = true) (htext : y.text = spelled (relead [] p.type.base))
    {ds : List Tree} (hds : p.Declares ds) :
    (Tree.node .parameterDeclaration none
      (qs.map (Token.leaf .typeQualifier) ++ y.withRole .type :: ds)).parameter? =
        some p.turned.parameter := by
  have hfront : ∀ t ∈ qs.map (Token.leaf .typeQualifier), t.role = none := by
    intro t ht
    obtain ⟨q, -, rfl⟩ := List.mem_map.mp ht
    rfl
  have hhead : ds.find? (·.role == some .declarator) = ds.head? := by
    cases ds with
    | nil => rfl
    | cons d ds => exact List.find?_cons_of_pos (by simp [hds.role d List.mem_cons_self])
  have hqualifiers : ((qs.map (Token.leaf .typeQualifier)).filter
      (·.kind == .typeQualifier)).map Tree.text = p.type.qualifiers := by
    rw [List.filter_eq_self.mpr fun t ht => ?_, List.map_map, ← hqs]
    · rfl
    · obtain ⟨q, -, rfl⟩ := List.mem_map.mp ht
      rfl
  have hchildren := child?_type .parameterDeclaration hfront y ds
  have hdeclarator := (child?_behind .parameterDeclaration hfront y ds
    (by decide : Role.declarator ≠ .type)).trans hhead
  have hall := qualifiers_eq .parameterDeclaration (qs.map (Token.leaf .typeQualifier)) hy hds.kind
  generalize Tree.node .parameterDeclaration none
    (qs.map (Token.leaf .typeQualifier) ++ y.withRole .type :: ds) = d at *
  have htype : d.spellType (y.withRole .type) p.type.layers.suffix = p.type.turned.text :=
    TypeText.spellType_eq hp.type (by rw [hall, hqualifiers]) (by rw [Tree.text_withRole, htext])
  have hdeclared : d.declared? = ds.head?.bind (·.peel.inner) := by
    rw [Tree.declared?, hdeclarator]
  have hsuffix : d.suffix = p.type.layers.suffix := by
    rw [Tree.suffix, hdeclarator, hds.suffix]
  rw [Tree.parameter?_eq, hchildren, Option.map_some, hsuffix, htype, Tree.speltWhole, hdeclared]
  rcases hds.inner with ⟨hname, hnone⟩ | ⟨u, hu, hkind, hname⟩
  · rw [hnone]
    simp [ParameterText.parameter, ParameterText.turned, hname]
  · rw [hu]
    simp [ParameterText.parameter, ParameterText.turned, hname, hkind]

/-- A parameter without a default value that is no pack. -/
theorem parameterShape_plain {ts : List Tree} (hvalue : ∀ t ∈ ts, t.role ≠ some .value)
    (hpack : ∀ t ∈ ts, t.NoPack) : parameterShape ts = some .parameterDeclaration := by
  have hrole : hasRole .value ts = false :=
    List.any_eq_false.mpr fun t ht => by simpa using hvalue t ht
  have hpacks : (ts.any fun t => t.kind == .variadicDeclarator ||
      (t.kind == .referenceDeclarator && hasKind .variadicDeclarator t.children)) = false := by
    refine List.any_eq_false.mpr fun t ht => ?_
    obtain ⟨hkind, hinside⟩ := hpack t ht
    by_cases h : t.kind = .referenceDeclarator
    · simp [hinside h, h]
    · simp [hkind, h]
  rw [parameterShape, hrole]
  simp only [hpacks]
  rfl

/-- **A parameter is read, and described with its bounds turned.** -/
theorem takes_parameter (hp : p.Valid) (lead : List Char)
    (hrest : Ahead Layers.parameterEnds rest) :
    ∃ x : Tree, x.Quiet ∧ x.kind = .parameterDeclaration ∧ x.parameter? = some p.turned.parameter ∧
      Takes grammar (.rule .parameter) (p.tokens lead ++ rest) [x] rest := by
  obtain ⟨P⟩ := hp.type.parts lead
  obtain ⟨y, hspell, hkind, hread⟩ := P.isBase.read
  -- behind the declarator
  obtain ⟨us, hus, hends, ds, hds, hdeclarator⟩ : ∃ us, (if p.name.isEmpty then [] else
      [wordToken [' '] p.name]) ++ rest = us ∧ Ahead (.name :: Layers.ends) us ∧
      ∃ ds, p.Declares ds ∧ Takes grammar parameterRest (p.type.layers.tokens ++ us) ds rest := by
    rcases hp.name with hname | ⟨hname, hbounds⟩
    · exact ⟨rest, by simp [hname], (Layers.ends_of_parameterEnds hrest).mono (by simp +contextual),
        takes_unnamed hp hname hrest⟩
    · have hne : p.name ≠ [] := Text.ne_nil_of_isWord hname.1
      exact ⟨_, by simp [hne], ahead_cons List.mem_cons_self (hname.fits [' ']),
        takes_named hp hname hbounds hrest⟩
  have hbehind := p.type.layers.ahead_tokens hends
  have hspecifiers := takes_specifiers P.isBase (fun us => P.takes_qualifiers)
    (hread _ (hbehind.mono (by simp [Layers.begins, Layers.ends, typeEnds])))
    (p.type.layers.fails_tokens hends (by decide) (by decide))
  have hwhole : p.tokens lead ++ rest = p.type.tokens lead ++ us := by
    rw [ParameterText.tokens, List.append_assoc, hus]
  have hparts : p.type.tokens lead ++ us =
      P.qualifiers ++ (P.base ++ (p.type.layers.tokens ++ us)) :=
    (congrArg (· ++ us) P.tokens).trans (by simp)
  have hleaves : ∀ t ∈ P.qualifiers.map (Token.leaf .typeQualifier), t.Quiet ∧ t.role = none ∧
      t.NoPack := by
    intro t ht
    obtain ⟨q, -, rfl⟩ := List.mem_map.mp ht
    exact ⟨.leaf, rfl, .of_kind (k := .typeQualifier) rfl (by decide)⟩
  have htype : (y.withRole .type).NoPack := by
    rw [Tree.NoPack, Tree.kind_withRole]
    constructor <;> intro h <;> rw [h] at hkind <;> cases hkind
  have htext : y.text = spelled (relead [] p.type.base) := by
    rw [← P.text, ← hspell.text]
    simp [Tree.texts, Tree.spellings]
  refine ⟨_, ?_, rfl, parameter?_text hp P.texts hkind htext hds, ?_⟩
  · refine .node rfl (List.forall_mem_append.mpr ⟨fun t ht => (hleaves t ht).1, ?_⟩)
    exact List.forall_mem_cons.mpr
      ⟨(hspell.quiet y (List.mem_singleton_self y)).withRole .type, hds.quiet⟩
  · have hshape : parameterShape (P.qualifiers.map (Token.leaf .typeQualifier) ++
        y.withRole .type :: ds) = some .parameterDeclaration := by
      refine parameterShape_plain ?_ ?_
      · refine List.forall_mem_append.mpr ⟨fun t ht => ?_, List.forall_mem_cons.mpr
          ⟨?_, fun d hd => ?_⟩⟩
        · rw [(hleaves t ht).2.1]
          decide
        · rw [Tree.role_withRole]
          decide
        · rw [hds.role d hd]
          decide
      · exact List.forall_mem_append.mpr ⟨fun t ht => (hleaves t ht).2.2,
          List.forall_mem_cons.mpr ⟨htype, hds.noPack⟩⟩
    have hbegins := P.begins us
    have hnodots : Fails grammar (.mark "...") (p.type.tokens lead ++ us) :=
      fails_of_ahead hbegins.ahead (by decide)
    have hinside := hspecifiers.append hdeclarator.last
    rw [List.append_assoc, List.singleton_append, ← hparts] at hinside
    rw [hwhole]
    exact .rule (.next hnodots (.first (.shaped_front hbegins.uncommented hinside hshape)))

/-! ## 5. Lists of parameters -/

/-- Further parameters, each behind a comma. -/
def furtherTokens (ps : List ParameterText) : List Token :=
  ps.flatMap fun p => markToken [] ',' :: p.tokens [' ']

/-- Parameters with commas in between. -/
def parameterTokens : List ParameterText → List Token
  | [] => []
  | p :: ps => p.tokens [] ++ furtherTokens ps

/-- The trees describe the parameters with their bounds turned. -/
structure DescribesAll (ps : List ParameterText) (a : List Tree) : Prop where
  quiet : ∀ t ∈ a, t.Quiet
  described : (a.filter Tree.isNamed).filterMap Tree.described? = ps.map (·.turned.parameter)

variable {ps : List ParameterText}

theorem DescribesAll.cons {x : Tree} (hquiet : x.Quiet) (hkind : x.kind = .parameterDeclaration)
    (hx : x.parameter? = some p.turned.parameter) (h : DescribesAll ps a) :
    DescribesAll (p :: ps) (x :: a) where
  quiet := List.forall_mem_cons.mpr ⟨hquiet, h.quiet⟩
  described := by
    have hnamed : x.isNamed = true := by rw [Tree.isNamed, hkind]; rfl
    have hdescribed : x.described? = some p.turned.parameter := by rw [Tree.described?, hkind, hx]
    rw [List.filter_cons_of_pos hnamed, List.filterMap_cons_some hdescribed, h.described,
      List.map_cons]

/-- A mark among the parameters is not described. -/
theorem DescribesAll.mark (h : DescribesAll ps a) (t : Token) :
    DescribesAll ps (t.leaf .token :: a) where
  quiet := List.forall_mem_cons.mpr ⟨.leaf, h.quiet⟩
  described := by
    have hmark : (t.leaf .token).isNamed = false := rfl
    rw [List.filter_cons_of_neg (by simp [hmark]), h.described]

theorem ahead_further (ps : List ParameterText) (rest : List Token) :
    Ahead Layers.parameterEnds (furtherTokens ps ++ markToken [] ')' :: rest) := by
  cases ps with
  | nil => exact ahead_mark (by simp [Layers.parameterEnds])
  | cons p ps => exact ahead_mark (by simp [Layers.parameterEnds])

/-- Further parameters are read up to the closing parenthesis. -/
theorem takes_further (hps : ∀ p ∈ ps, p.Valid) (rest : List Token) :
    ∃ a, DescribesAll ps a ∧ Takes grammar (.star (.seq [.mark ",", .rule .parameter]))
      (furtherTokens ps ++ markToken [] ')' :: rest) a (markToken [] ')' :: rest) := by
  induction ps with
  | nil =>
    exact ⟨[], ⟨nofun, rfl⟩, .star_nil (fails_of_glance sees_mark (by decide))⟩
  | cons p ps ih =>
    obtain ⟨hp, hps⟩ := List.forall_mem_cons.mp hps
    obtain ⟨a, ha, hread⟩ := ih hps
    obtain ⟨x, hquiet, hkind, hx, hparameter⟩ := takes_parameter hp [' '] (ahead_further ps rest)
    refine ⟨_, (DescribesAll.cons hquiet hkind hx ha).mark (markToken [] ','), ?_⟩
    have hfirst : Takes grammar (.seq [.mark ",", .rule .parameter])
        (furtherTokens (p :: ps) ++ markToken [] ')' :: rest)
        [(markToken [] ',').leaf .token, x] (furtherTokens ps ++ markToken [] ')' :: rest) := by
      rw [furtherTokens, List.flatMap_cons, List.cons_append, List.cons_append, List.append_assoc]
      exact .cons (takes_mark rfl) hparameter.last
    exact hfirst.star_cons hread

/-- **A list of parameters is read, and described with its bounds turned.** -/
theorem takes_parameters (hps : ∀ p ∈ ps, p.Valid) (rest : List Token) :
    ∃ x : Tree, x.Quiet ∧ x.kind = .parameterList ∧
      x.parameterList = ps.map (·.turned.parameter) ∧ Takes grammar (.rule .parameters)
        (markToken [] '(' :: (parameterTokens ps ++ markToken [] ')' :: rest)) [x] rest := by
  obtain ⟨a, ha, hread⟩ : ∃ a, DescribesAll ps a ∧
      Takes grammar (commaList (.rule .parameter)) (parameterTokens ps ++ markToken [] ')' :: rest)
        a (markToken [] ')' :: rest) := by
    cases ps with
    | nil =>
      exact ⟨[], ⟨nofun, rfl⟩, .next (fails_of_glance sees_mark (by decide)) (.first .nil)⟩
    | cons p ps =>
      obtain ⟨hp, hps⟩ := List.forall_mem_cons.mp hps
      obtain ⟨a, ha, hread⟩ := takes_further hps rest
      obtain ⟨x, hquiet, hkind, hx, hparameter⟩ := takes_parameter hp [] (ahead_further ps rest)
      rw [parameterTokens, List.append_assoc]
      exact ⟨x :: a, .cons hquiet hkind hx ha, .first (.cons hparameter hread.last)⟩
  have hclose : DescribesAll ps (a ++ [(markToken [] ')').leaf .token]) := by
    refine ⟨List.forall_mem_append.mpr ⟨ha.quiet, List.forall_mem_singleton.mpr .leaf⟩, ?_⟩
    have hmark : [(markToken [] ')').leaf .token].filter Tree.isNamed = [] := rfl
    rw [List.filter_append, hmark, List.append_nil, ha.described]
  refine ⟨.node .parameterList none ((markToken [] '(').leaf .token ::
    (a ++ [(markToken [] ')').leaf .token])), ?_, rfl, ?_, ?_⟩
  · exact .node rfl (hclose.mark (markToken [] '(')).quiet
  · rw [Tree.parameterList_eq]
    exact (hclose.mark (markToken [] '(')).described
  · exact .rule (.node_front rfl (.cons (takes_mark rfl) (hread.append (takes_mark rfl).last)))

/-! ## 6. Their text -/

/-- A parameter is written as its type, and behind it its name if it has one. -/
theorem typed_eq (p : ParameterText) :
    Method.typed p.parameter = String.ofList (spelled (p.tokens [])) := by
  by_cases hname : p.name = []
  · simp [Method.typed, ParameterText.parameter, ParameterText.tokens, hname, TypeText.text]
  · have hne : (String.ofList p.name).isEmpty = false := by
      simpa [String.isEmpty_iff] using hname
    rw [Method.typed, ParameterText.parameter]
    simp only [hne]
    rw [← String.toList_inj]
    simp [ParameterText.tokens, hname, TypeText.text]

/-- **Parameters are written with commas in between.** -/
theorem typedList_eq (hps : ∀ p ∈ ps, p.Valid) :
    ", ".intercalate (ps.map fun p => Method.typed p.parameter) =
      String.ofList (spelled (parameterTokens ps)) := by
  induction ps with
  | nil => rfl
  | cons p ps ih =>
    obtain ⟨hp, hps⟩ := List.forall_mem_cons.mp hps
    cases ps with
    | nil => simp [typed_eq, parameterTokens, furtherTokens]
    | cons q ps =>
      have hq := (hps q List.mem_cons_self).type
      have hmore := ih hps
      rw [List.map_cons, ← String.toList_inj, String.toList_ofList] at hmore ⊢
      rw [List.map_cons, String.intercalate_cons_cons, String.toList_append, String.toList_append,
        hmore, typed_eq]
      simp [parameterTokens, furtherTokens, ParameterText.tokens,
        TypeText.spelled_tokens hq [' '], TypeText.spelled_tokens hq []]

/-- None of the tokens runs into the next. -/
theorem clear_parameter (hp : p.Valid) (hlead : Gap lead) (hts : Clear ts) (hoff : StandsOff ts) :
    Clear (p.tokens lead ++ ts) := by
  rw [ParameterText.tokens, List.append_assoc]
  rcases hp.name with hname | ⟨hname, -⟩
  · rw [hname]
    exact TypeText.clear_tokens hp.type hlead hts hoff
  · have hne : p.name.isEmpty = false := by simpa using Text.ne_nil_of_isWord hname.1
    rw [hne]
    exact TypeText.clear_tokens hp.type hlead (.word (by decide) hname.1 hoff hts)
      (.lead (List.cons_ne_nil ' ' []))

theorem clear_further (hps : ∀ p ∈ ps, p.Valid) (hts : Clear ts) (hoff : StandsOff ts) :
    Clear (furtherTokens ps ++ ts) ∧ StandsOff (furtherTokens ps ++ ts) := by
  induction ps with
  | nil => exact ⟨hts, hoff⟩
  | cons p ps ih =>
    obtain ⟨hp, hps⟩ := List.forall_mem_cons.mp hps
    obtain ⟨hclear, hstands⟩ := ih hps
    rw [furtherTokens, List.flatMap_cons, List.append_assoc, List.cons_append]
    exact ⟨.mark (by decide) (by decide) (clear_parameter hp (by decide) hclear hstands), .mark rfl⟩

theorem clear_parameters (hps : ∀ p ∈ ps, p.Valid) (hts : Clear ts) (hoff : StandsOff ts) :
    Clear (parameterTokens ps ++ ts) := by
  cases ps with
  | nil => exact hts
  | cons p ps =>
    obtain ⟨hp, hps⟩ := List.forall_mem_cons.mp hps
    obtain ⟨hclear, hstands⟩ := clear_further hps hts hoff
    rw [parameterTokens, List.append_assoc]
    exact clear_parameter hp (by decide) hclear hstands

end Scaffold.Cpp
