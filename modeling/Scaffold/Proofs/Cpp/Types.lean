import Scaffold.Proofs.Cpp.Suffixes

/-!
# Types as they are written

A type is written with words of the language, sized or not, or with a qualified name whose parts
have template arguments, which are types again.

* `IsPart` -- the tokens of such types and of their parts;
* `Part.Read` -- what the grammar makes of them, whatever comes behind; `IsPart.read`: **it reads
  every part of a type as such**;
* `IsPart.relead` -- the blank space in front of a type is no part of it;
* `fails_declared`, `fails_cast` -- a type in front of what it is the type of is read neither as
  the name of a function nor as the class in front of an operator.
-/
namespace Scaffold.Cpp

open Grammar
open Pattern
open Text (isWord)

variable {ts us rest : List Token} {t u : Token} {a b : List Tree} {lead w : List Char} {k : Kind}

/-! ## 1. Types -/

/-- A word that stands for nothing but a name. -/
def IsName (w : List Char) : Prop := isWord w = true ∧ String.ofList w ∉ keywords

instance (w : List Char) : Decidable (IsName w) := inferInstanceAs (Decidable (_ ∧ _))

/-- The parts of a type. -/
inductive Part where
  /-- A type without qualifiers, pointers and the like. -/
  | base
  /-- A qualified name. -/
  | path
  /-- A name with its template arguments. -/
  | segment
  /-- Template arguments with commas in between. -/
  | arguments
  | argument

/-- The tokens are such a part of a type. -/
inductive IsPart : Part → List Token → Prop where
  | primitive {lead w : List Char} (hw : String.ofList w ∈ primitiveWords) :
      IsPart .base [wordToken lead w]
  | sized {t : Token} {ts : List Token} (hts : ∀ u ∈ t :: ts, (Look.word sizeWords).Fits u) :
      IsPart .base (t :: ts)
  | sizedPrimitive {t : Token} {ts : List Token} {lead w : List Char}
      (hts : ∀ u ∈ t :: ts, (Look.word sizeWords).Fits u)
      (hw : String.ofList w ∈ primitiveWords) : IsPart .base (t :: (ts ++ [wordToken lead w]))
  | named {ts : List Token} (h : IsPart .path ts) : IsPart .base ts
  | single {ts : List Token} (h : IsPart .segment ts) : IsPart .path ts
  | qualified {ts us : List Token} {lead : List Char} (h : IsPart .segment ts)
      (h' : IsPart .path us) : IsPart .path (ts ++ markToken lead ':' :: markToken [] ':' :: us)
  | name {lead w : List Char} (hw : IsName w) : IsPart .segment [wordToken lead w]
  | template {ts : List Token} {lead lead' lead'' w : List Char} (hw : IsName w)
      (h : IsPart .arguments ts) : IsPart .segment
        (wordToken lead w :: markToken lead' '<' :: (ts ++ [markToken lead'' '>']))
  | last {ts : List Token} (h : IsPart .argument ts) : IsPart .arguments ts
  | more {ts us : List Token} {lead : List Char} (h : IsPart .argument ts)
      (h' : IsPart .arguments us) : IsPart .arguments (ts ++ markToken lead ',' :: us)
  | number {lead w : List Char} : IsPart .argument [numberToken lead w]
  | type {qs ts : List Token} {L : Layers} (hqs : ∀ q ∈ qs, (Look.word qualifierWords).Fits q)
      (h : IsPart .base ts) (hL : L.Valid) : IsPart .argument (qs ++ (ts ++ L.tokens))

/-- How the parts of a type begin. -/
def Part.starts : Part → List Look
  | .base => [.word primitiveWords, .word sizeWords, .name]
  | .path | .segment => [.name]
  | .arguments | .argument =>
    [.word qualifierWords, .word primitiveWords, .word sizeWords, .name, .number]

theorem IsName.fits (hw : IsName w) (lead : List Char) : Look.name.Fits (wordToken lead w) :=
  ⟨rfl, hw.2⟩

theorem IsPart.begins {part : Part} (h : IsPart part ts) : Begins part.starts ts := by
  induction h with
  | primitive hw => exact ⟨_, _, rfl, _, List.mem_cons_self, rfl, hw⟩
  | sized hts => exact ⟨_, _, rfl, _, by simp [Part.starts], hts _ List.mem_cons_self⟩
  | sizedPrimitive hts _ => exact ⟨_, _, rfl, _, by simp [Part.starts], hts _ List.mem_cons_self⟩
  | named _ ih => exact ih.mono (by simp [Part.starts])
  | single _ ih => exact ih
  | qualified _ _ ih _ => exact ih.append _
  | name hw => exact ⟨_, _, rfl, _, List.mem_cons_self, hw.fits _⟩
  | template hw _ _ => exact ⟨_, _, rfl, _, List.mem_cons_self, hw.fits _⟩
  | last _ ih => exact ih
  | more _ _ ih _ => exact ih.append _
  | number => exact ⟨_, _, rfl, .number, by simp [Part.starts], rfl⟩
  | type hqs _ _ ih =>
    exact (Layers.begins_qualifiers hqs (ih.append _)).mono (by simp [Part.starts])

/-- A name is in sight. -/
theorem IsPart.sees {part : Part} (h : IsPart part ts) (hpart : part.starts = [.name])
    (rest : List Token) : Sees [.name] (ts ++ rest) := by
  obtain ⟨l, hl, hs⟩ := (h.begins.append rest).ahead
  rw [hpart, List.mem_singleton] at hl
  rwa [hl] at hs

/-! ## 2. What the grammar reads -/

/-- Behind a type without what is written behind it. -/
def typeEnds : List Look :=
  [.name, .mark '*', .mark '&', .mark '[', .mark ',', .mark ')', .mark '>']

/-- Behind a name in a type. -/
def nameEnds : List Look := .mark ':' :: typeEnds

/-- Behind a template argument. -/
def argumentEnds : List Look := [.mark ',', .mark '>']

/-- A further part of a qualified name. -/
def furtherSegment : P := .seq [.mark "::", opt (.word "template"), .rule (.segment true)]

/-- A template argument. -/
def templateArgument : P :=
  .alts
    [.seq [.rule .typeDescriptor, opt (.mark "..."), .ahead (.alts [.mark ",", .mark ">"])],
     .seq [.rule (.expression true), opt (.mark "...")]]

/-- The kinds of a name with its template arguments. -/
def Kind.isSegment (k : Kind) : Bool := k == .typeIdentifier || k == .templateType

/-- The kinds of types. -/
def Kind.isTypal (k : Kind) : Bool :=
  k == .primitiveType || k == .sizedType || k == .qualifiedIdentifier || k.isSegment

/-- What the grammar makes of a part of a type, whatever comes behind. -/
def Part.Read : Part → List Token → Prop
  | .base, ts => ∃ x, Spell [x] ts ∧ x.kind.isTypal = true ∧
      ∀ rest, Ahead typeEnds rest → Takes grammar (.rule .type) (ts ++ rest) [x] rest
  | .path, ts => ∃ x b, Spell (x :: b) ts ∧ x.kind.isSegment = true ∧
      hasText "auto" (x :: b) = false ∧ (b = [] ∨ hasText "::" (x :: b) = true) ∧
      ∀ rest, Ahead typeEnds rest → ∃ mid,
        (∀ inner, Takes grammar (.rule (.segment inner)) (ts ++ rest) [x] mid) ∧
        Takes grammar (.star furtherSegment) mid b rest
  | .segment, ts => ∃ x, Spell [x] ts ∧ x.kind.isSegment = true ∧
      ∀ inner rest, Ahead nameEnds rest →
        Takes grammar (.rule (.segment inner)) (ts ++ rest) [x] rest
  | .arguments, ts => ∃ a, Spell a ts ∧ ∀ rest, Sees [.mark '>'] rest → ∃ b c mid, a = b ++ c ∧
      Takes grammar templateArgument (ts ++ rest) b mid ∧
      Takes grammar (.star (.seq [.mark ",", templateArgument])) mid c rest
  | .argument, ts => ∃ a, Spell a ts ∧ ∀ rest, Ahead argumentEnds rest →
      Takes grammar templateArgument (ts ++ rest) a rest

theorem read_primitive (hw : String.ofList w ∈ primitiveWords) (lead : List Char) :
    Part.Read .base [wordToken lead w] := by
  refine ⟨_, .leaf .primitiveType (wordToken lead w), rfl, fun rest hrest => ?_⟩
  have hword : (Look.word primitiveWords).Fits (wordToken lead w) := ⟨rfl, hw⟩
  exact takes_alternative₂ 4 rfl rfl hword hrest (by decide)
    (takes_look rfl hword (by decide))

/-- Words that size a type, up to its end or to the word that they size. -/
theorem takes_sizes {ts : List Token} (hts : ∀ u ∈ t :: ts, (Look.word sizeWords).Fits u)
    (hrest : Fails grammar (keyword sizeWords) rest) :
    Takes grammar (plus (keyword sizeWords)) (t :: ts ++ rest)
      ((t :: ts).map (Token.leaf .token)) rest := by
  obtain ⟨ht, hts⟩ := List.forall_mem_cons.mp hts
  exact .cons (takes_look rfl ht (by decide))
    (.last (.star_map (fun u hu _ => takes_look rfl (hts u hu) (by decide)) hrest))

theorem read_sized {ts : List Token} (hts : ∀ u ∈ t :: ts, (Look.word sizeWords).Fits u) :
    Part.Read .base (t :: ts) := by
  have hspell := (Spell.leaf .token t).leaves .token ts
  refine ⟨_, .node (k := .sizedType) (r := none) rfl hspell, rfl, fun rest hrest => ?_⟩
  refine takes_alternative 2 rfl rfl (sees_one (hts t List.mem_cons_self)) (by decide)
    (.node (splitComments_of_ne (hts t List.mem_cons_self).ne_comment) ?_)
  have hsizes := takes_sizes hts (fails_of_ahead hrest (by decide))
  have hmore : Takes grammar (.seq [.star (.rule .qualifier),
      opt (.oneOf .primitiveType primitiveWords), .star (keyword sizeWords)]) rest [] rest :=
    .skip (.star_nil (fails_of_ahead hrest (by decide)))
      (.skip (.next (fails_of_ahead hrest (by decide)) (.first .nil))
        (.last (.star_nil (fails_of_ahead hrest (by decide)))))
  simpa using hsizes.append hmore

theorem read_sizedPrimitive {ts : List Token} {lead w : List Char}
    (hts : ∀ u ∈ t :: ts, (Look.word sizeWords).Fits u) (hw : String.ofList w ∈ primitiveWords) :
    Part.Read .base (t :: (ts ++ [wordToken lead w])) := by
  have hspell := ((Spell.leaf .token t).leaves .token ts).append
    (.leaf .primitiveType (wordToken lead w))
  refine ⟨_, .node (k := .sizedType) (r := none) rfl hspell, rfl, fun rest hrest => ?_⟩
  refine takes_alternative 2 rfl rfl (sees_one (hts t List.mem_cons_self)) (by decide)
    (.node (splitComments_of_ne (hts t List.mem_cons_self).ne_comment) ?_)
  have hword : (Look.word primitiveWords).Fits (wordToken lead w) := ⟨rfl, hw⟩
  have hsees : Sees [.word primitiveWords] (wordToken lead w :: rest) := sees_cons hword trivial
  have hsizes := takes_sizes hts (fails_of_glance hsees (by decide))
  have hmore : Takes grammar (.seq [.star (.rule .qualifier),
      opt (.oneOf .primitiveType primitiveWords), .star (keyword sizeWords)])
      (wordToken lead w :: rest) [(wordToken lead w).leaf .primitiveType] rest :=
    .skip (.star_nil (fails_of_glance hsees (by decide)))
      (.cons (.first (takes_look rfl hword (by decide)))
        (.last (.star_nil (fails_of_ahead hrest (by decide)))))
  simpa using hsizes.append hmore

/-! ## 3. Names in types -/

/-- A name without template arguments. -/
theorem takes_segment (hw : IsName w) (lead : List Char) (inner : Bool)
    (hrest : Fails grammar (.rule .templateArguments) rest) :
    Takes grammar (.rule (.segment inner)) (wordToken lead w :: rest)
      [(wordToken lead w).leaf .typeIdentifier] rest := by
  have hname := hw.fits lead
  refine .rule (.shapeless_front (splitComments_of_ne hname.ne_comment)
    (.cons (.next ?_ (.first ?_)) (.last (.next hrest (.first .nil)))) rfl)
  · exact fails_of_glance (sees_one hname) (by decide)
  · cases inner <;> exact takes_look rfl hname (by decide)

theorem read_name (hw : IsName w) (lead : List Char) : Part.Read .segment [wordToken lead w] :=
  ⟨_, .leaf .typeIdentifier (wordToken lead w), rfl, fun inner _ hrest =>
    takes_segment hw lead inner (fails_of_ahead hrest (by decide))⟩

/-- Template arguments are read between their marks. -/
theorem takes_arguments {ts : List Token} (lead lead' : List Char) (h : Part.Read .arguments ts) :
    ∃ x, x.kind = .templateArguments ∧
      Spell [x] (markToken lead '<' :: (ts ++ [markToken lead' '>'])) ∧
      ∀ rest, Takes grammar (.rule .templateArguments)
        (markToken lead '<' :: (ts ++ markToken lead' '>' :: rest)) [x] rest := by
  obtain ⟨a, hspell, hread⟩ := h
  refine ⟨_, rfl, .node (k := .templateArguments) (r := none) rfl
    ((Spell.leaf .token (markToken lead '<')).cons
      (hspell.append (.leaf .token (markToken lead' '>')))), fun rest => ?_⟩
  obtain ⟨b, c, mid, rfl, hb, hc⟩ := hread (markToken lead' '>' :: rest)
    (sees_cons ⟨rfl, rfl⟩ trivial)
  have hcommas : Takes grammar (commaList templateArgument) (ts ++ markToken lead' '>' :: rest)
      (b ++ c) (markToken lead' '>' :: rest) := .first (.append hb hc.last)
  exact .rule (.node rfl (.cons (takes_mark rfl) (.append hcommas (.last (takes_mark rfl)))))

theorem read_template {ts : List Token} {lead lead' lead'' w : List Char} (hw : IsName w)
    (h : Part.Read .arguments ts) : Part.Read .segment
      (wordToken lead w :: markToken lead' '<' :: (ts ++ [markToken lead'' '>'])) := by
  obtain ⟨x, hx, hspell, hread⟩ := takes_arguments lead' lead'' h
  refine ⟨_, .node (k := .templateType) (r := none) rfl
    ((Spell.leaf .typeIdentifier (wordToken lead w)).cons hspell), rfl,
    fun inner rest hrest => ?_⟩
  have hname := hw.fits lead
  have hshape : segmentShape [(wordToken lead w).leaf .typeIdentifier, x] = some .templateType := by
    simp [segmentShape, hasKind, hx]
  rw [List.cons_append, List.cons_append, List.append_assoc, List.singleton_append]
  refine .rule (.shaped_front (splitComments_of_ne hname.ne_comment) (.cons (.next ?_ (.first ?_))
    (.last (.first (hread rest)))) hshape)
  · exact fails_of_glance (sees_one hname) (by decide)
  · cases inner <;> exact takes_look rfl hname (by decide)

/-- The word is no keyword of the grammar. -/
theorem hasText_segment {x : Tree} (hx : x.kind.isSegment = true) (text : String) (b : List Tree) :
    hasText text (x :: b) = hasText text b := by
  have hkind : (x.kind == .token) = false := by
    cases h : x.kind <;> rw [h] at hx <;> first | rfl | cases hx
  rw [hasText, List.any_cons, hkind]
  rfl

theorem read_single {ts : List Token} (h : Part.Read .segment ts) : Part.Read .path ts := by
  obtain ⟨x, hspell, hkind, hread⟩ := h
  refine ⟨x, [], hspell, hkind, hasText_segment hkind _ _, .inl rfl, fun rest hrest => ?_⟩
  have hends : Ahead nameEnds rest := hrest.imp fun l hl => ⟨List.mem_cons_of_mem _ hl.1, hl.2⟩
  exact ⟨rest, fun inner => hread inner rest hends,
    .star_nil (fails_of_ahead hrest (by decide))⟩

/-- The mark between the parts of a qualified name. -/
theorem takes_colons (lead : List Char) (rest : List Token) :
    Takes grammar (.mark "::") (markToken lead ':' :: markToken [] ':' :: rest)
      [.leaf .token none lead [':', ':']] rest := ⟨1, fun _ => rfl⟩

theorem read_qualified {ts us : List Token} {lead : List Char} (h : Part.Read .segment ts)
    (h' : Part.Read .path us) (hus : ∀ rest, Sees [.name] (us ++ rest)) :
    Part.Read .path (ts ++ markToken lead ':' :: markToken [] ':' :: us) := by
  obtain ⟨x, hspell, hkind, hread⟩ := h
  obtain ⟨y, b, hspell', hkind', hauto, hqualified, hread'⟩ := h'
  refine ⟨x, .leaf .token none lead [':', ':'] :: y :: b,
    hspell.cons ((Spell.leaf₂ .token lead ':' ':').cons hspell'), hkind, ?_, .inr ?_,
    fun rest hrest => ?_⟩
  · rw [hasText_segment hkind]
    exact hauto
  · rw [hasText_segment hkind]
    rfl
  · obtain ⟨mid, hfirst, hmore⟩ := hread' rest hrest
    refine ⟨markToken lead ':' :: markToken [] ':' :: (us ++ rest), fun inner => ?_, ?_⟩
    · rw [List.append_assoc]
      exact hread inner _ (ahead_mark List.mem_cons_self)
    · have hsegment : Takes grammar furtherSegment
          (markToken lead ':' :: markToken [] ':' :: (us ++ rest)) _ mid :=
        .cons (takes_colons lead _)
          (.skip (.next (fails_of_glance (hus rest) (by decide)) (.first .nil))
            (hfirst true).last)
      exact hsegment.star_cons hmore

/-- **A qualified name is read as a type.** -/
theorem read_named (hpath : IsPart .path ts) (h : Part.Read .path ts) : Part.Read .base ts := by
  obtain ⟨x, b, hspell, hkind, hauto, hqualified, hread⟩ := h
  have hsees := hpath.sees rfl
  have hparts (rest : List Token) (hrest : Ahead typeEnds rest) : Takes grammar (.seq
      [.alts [.seq [.mark "::", .rule (.segment true)], .rule (.segment false)],
       .star furtherSegment, .without (.mark "::"), opt (.word "auto")]) (ts ++ rest) (x :: b)
      rest := by
    obtain ⟨mid, hfirst, hmore⟩ := hread rest hrest
    have hend : Takes grammar (.seq [.without (.mark "::"), opt (.word "auto")]) rest [] rest :=
      .skip (.without (fails_of_ahead hrest (by decide)))
        (.last (.next (fails_of_ahead hrest (by decide)) (.first .nil)))
    have hnames := Takes.append hmore hend
    rw [List.append_nil] at hnames
    exact .cons (.next (fails_of_glance (hsees rest) (by decide))
      (.first (hfirst false))) hnames
  have htype {rest : List Token} {a : List Tree}
      (h : Takes grammar (.rule .typeName) (ts ++ rest) a rest) :
      Takes grammar (.rule .type) (ts ++ rest) a rest :=
    takes_alternative 7 rfl rfl (hsees rest) (by decide) h
  rcases hqualified with rfl | hqualified
  · refine ⟨x, hspell, by simp [Kind.isTypal, hkind], fun rest hrest => htype (.rule ?_)⟩
    refine .shapeless_front (hpath.begins.append rest).uncommented (hparts rest hrest) ?_
    rw [nameShape, hauto, hasText_segment hkind]
    rfl
  · refine ⟨_, .node (k := .qualifiedIdentifier) (r := none) rfl hspell, rfl,
      fun rest hrest => htype (.rule ?_)⟩
    refine .shaped_front (hpath.begins.append rest).uncommented (hparts rest hrest) ?_
    rw [nameShape, hauto, hqualified]
    rfl

/-! ## 4. Template arguments -/

/-- Behind an expression that is a number. -/
def numberEnds : Bool → List Look
  | true => argumentEnds
  | false => [.mark ';']

/-- A number is read as an expression. -/
theorem takes_number (inAngles : Bool) (lead w : List Char)
    (hrest : Ahead (numberEnds inAngles) rest) :
    Takes grammar (.rule (.expression inAngles)) (numberToken lead w :: rest)
      [.node .expression none [(numberToken lead w).leaf .numberLiteral]] rest := by
  have hnumber : Look.number.Fits (numberToken lead w) := rfl
  have hends : Ahead (.mark ';' :: argumentEnds) rest := by
    cases inAngles with
    | false => exact hrest.mono (by simp [numberEnds])
    | true => exact hrest.mono fun _ => List.mem_cons_of_mem _
  have hoperand : Takes grammar (.rule .operand) (numberToken lead w :: rest)
      [(numberToken lead w).leaf .numberLiteral] rest :=
    .rule (.skip (.star_nil (fails_of_glance (sees_one hnumber) (by decide)))
      (.cons (takes_alternative 0 rfl rfl (sees_one hnumber) rfl (takes_look rfl hnumber rfl))
        (.last (.star_nil (fails_of_ahead hends (by decide))))))
  refine .rule (.node_front rfl (.cons hoperand (.last (.star_nil ?_))))
  cases inAngles <;> exact fails_of_ahead hrest (by decide)

theorem read_number (lead w : List Char) : Part.Read .argument [numberToken lead w] := by
  have hspell := Spell.node (k := .expression) (r := none) rfl
    (.leaf .numberLiteral (numberToken lead w))
  refine ⟨_, hspell, fun rest hrest => ?_⟩
  have hnumber : Look.number.Fits (numberToken lead w) := rfl
  exact .next (fails_of_glance (sees_one hnumber) (by decide)) (.first
    (.cons (takes_number true lead w hrest)
      (.last (.next (fails_of_ahead hrest (by decide)) (.first .nil)))))

theorem read_last (h : Part.Read .argument ts) : Part.Read .arguments ts := by
  obtain ⟨a, hspell, hread⟩ := h
  refine ⟨a, hspell, fun rest hrest => ⟨a, [], rest, (List.append_nil a).symm, ?_, ?_⟩⟩
  · exact hread rest ⟨_, by simp [argumentEnds], hrest⟩
  · exact .star_nil (fails_of_glance hrest (by decide))

theorem read_more {ts us : List Token} {lead : List Char} (h : Part.Read .argument ts)
    (h' : Part.Read .arguments us) : Part.Read .arguments (ts ++ markToken lead ',' :: us) := by
  obtain ⟨a, hspell, hread⟩ := h
  obtain ⟨a', hspell', hread'⟩ := h'
  refine ⟨_, hspell.append ((Spell.leaf .token (markToken lead ',')).cons hspell'),
    fun rest hrest => ?_⟩
  obtain ⟨b, c, mid, rfl, hb, hc⟩ := hread' rest hrest
  refine ⟨a, _, markToken lead ',' :: (us ++ rest), rfl, ?_, ?_⟩
  · rw [List.append_assoc]
    exact hread _ (ahead_mark (by simp [argumentEnds]))
  · exact (Takes.cons (takes_mark rfl) hb.last).star_cons hc

theorem read_type {qs : List Token} {L : Layers}
    (hqs : ∀ q ∈ qs, (Look.word qualifierWords).Fits q) (hbase : IsPart .base ts)
    (h : Part.Read .base ts) (hL : L.Valid) :
    Part.Read .argument (qs ++ (ts ++ L.tokens)) := by
  obtain ⟨x, hspell, -, hread⟩ := h
  have hdeclarator : Spell (x.withRole .type :: (L.tree?.map (·.withRole .declarator)).toList)
      (ts ++ L.tokens) := by
    cases hx : L.tree? with
    | none =>
      rw [(L.tokens_of_none hx).1, List.append_nil]
      exact hspell.withRole .type
    | some y => exact (hspell.withRole .type).cons ((L.spell_tree hx).withRole .declarator)
  have hall : Spell (qs.map (Token.leaf .typeQualifier) ++
      (x.withRole .type :: (L.tree?.map (·.withRole .declarator)).toList))
      (qs ++ (ts ++ L.tokens)) := by
    cases qs with
    | nil => exact hdeclarator
    | cons q qs => exact ((Spell.leaf .typeQualifier q).leaves .typeQualifier qs).append hdeclarator
  refine ⟨_, .node (k := .typeDescriptor) (r := none) rfl hall, fun rest hrest => ?_⟩
  have hends : Ahead Layers.ends rest := hrest.mono (by simp [argumentEnds, Layers.ends])
  have hlayers := L.ahead_tokens hrest
  have hbase' : Begins Part.base.starts (ts ++ (L.tokens ++ rest)) := hbase.begins.append _
  have htype : Takes grammar (.role .type (.rule .type)) (ts ++ (L.tokens ++ rest))
      [x.withRole .type] (L.tokens ++ rest) :=
    (hread _ (hlayers.mono (by simp [argumentEnds, Layers.begins, typeEnds]))).role
  have hdescriptor : Takes grammar (.rule .typeDescriptor) (qs ++ (ts ++ (L.tokens ++ rest))) _
      rest :=
    .rule (.node_front (Layers.begins_qualifiers hqs hbase').uncommented (.append
      (Layers.takes_qualifiers hqs (fails_of_ahead hbase'.ahead (by decide)))
      (.cons htype (.skip (.star_nil (fails_of_ahead hlayers (by decide)))
        (Layers.takes_optional hends fun x hx => Layers.takes_tree hL hx hends).last))))
  rw [List.append_assoc, List.append_assoc]
  obtain ⟨a, us, ha⟩ := takes_of_ahead (p := .alts [.mark ",", .mark ">"]) hrest (by decide)
  exact .first (.cons hdescriptor (.skip
    (.next (fails_of_ahead hrest (by decide)) (.first .nil)) ha.ahead.last))

/-- **Every part of a type is read as such.** -/
theorem IsPart.read {part : Part} (h : IsPart part ts) : part.Read ts := by
  induction h with
  | primitive hw => exact read_primitive hw _
  | sized hts => exact read_sized hts
  | sizedPrimitive hts hw => exact read_sizedPrimitive hts hw
  | named h ih => exact read_named h ih
  | single _ ih => exact read_single ih
  | qualified _ h' ih ih' => exact read_qualified ih ih' (h'.sees rfl)
  | name hw => exact read_name hw _
  | template hw _ ih => exact read_template hw ih
  | last _ ih => exact read_last ih
  | more _ _ ih ih' => exact read_more ih ih'
  | number => exact read_number _ _
  | type hqs h hL ih => exact read_type hqs h ih hL

/-! ## 5. The blank space in front -/

theorem relead_append (lead : List Char) (hts : ts ≠ []) (us : List Token) :
    relead lead (ts ++ us) = relead lead ts ++ us := by
  cases ts with
  | nil => exact absurd rfl hts
  | cons t ts => rfl

theorem Begins.ne_nil {looks : List Look} (h : Begins looks ts) : ts ≠ [] := by
  obtain ⟨t, ts, rfl, -⟩ := h
  exact List.cons_ne_nil t ts

theorem fits_front {words : List String} (h : ∀ u ∈ t :: ts, (Look.word words).Fits u)
    (lead : List Char) : ∀ u ∈ { t with lead := lead } :: ts, (Look.word words).Fits u := by
  obtain ⟨ht, hts⟩ := List.forall_mem_cons.mp h
  exact List.forall_mem_cons.mpr ⟨ht, hts⟩

/-- **The blank space in front of a type is no part of it.** -/
theorem IsPart.relead {part : Part} (h : IsPart part ts) (lead : List Char) :
    IsPart part (relead lead ts) := by
  induction h with
  | primitive hw => exact .primitive hw
  | sized hts => exact .sized (fits_front hts lead)
  | sizedPrimitive hts hw => exact .sizedPrimitive (fits_front hts lead) hw
  | named _ ih => exact .named ih
  | single _ ih => exact .single ih
  | qualified h h' ih _ =>
    rw [relead_append lead h.begins.ne_nil]
    exact .qualified ih h'
  | name hw => exact .name hw
  | template hw h => exact .template hw h
  | last _ ih => exact .last ih
  | more h h' ih _ =>
    rw [relead_append lead h.begins.ne_nil]
    exact .more ih h'
  | number => exact .number
  | @type qs ts L hqs h hL ih =>
    cases qs with
    | nil =>
      rw [List.nil_append, relead_append lead h.begins.ne_nil]
      exact .type (List.forall_mem_nil _) ih hL
    | cons q qs =>
      have hfirst : IsPart .argument ({ q with lead := lead } :: qs ++ (ts ++ L.tokens)) :=
        .type (fits_front hqs lead) h hL
      exact hfirst

/-! ## 6. Types are no declared names -/

/-- The name of a class in front of what is declared in it. -/
def outerSegment (inner : Bool) (ps : List P) : P :=
  .seq (.rule (.segment inner) :: .mark "::" :: ps)

/-- What comes behind a name is no further part of it. -/
theorem fails_outer (h : IsPart .segment ts) (hrest : Ahead typeEnds rest) (inner : Bool)
    (ps : List P) : Fails grammar (outerSegment inner ps) (ts ++ rest) := by
  obtain ⟨x, -, -, hread⟩ := h.read
  exact .behind (hread inner rest (hrest.mono fun _ => List.mem_cons_of_mem _))
    (.cons (fails_of_ahead hrest (by decide)))

/-- A part of a qualified name with the mark behind it, and what comes then. -/
theorem takes_outer (lead : List Char) {ps : List P} {mid : List Token} (h : IsPart .segment ts)
    (inner : Bool) (hps : Takes grammar (.seq ps) us b mid) : ∃ a, Takes grammar
      (outerSegment inner ps) (ts ++ (markToken lead ':' :: markToken [] ':' :: us)) a mid := by
  obtain ⟨x, -, -, hread⟩ := h.read
  have hcolon : Ahead nameEnds (markToken lead ':' :: markToken [] ':' :: us) :=
    ahead_mark List.mem_cons_self
  exact ⟨_, .cons (hread inner _ hcolon) (.cons (takes_colons lead us) hps)⟩

/-- No further word stands in front of a name. -/
theorem takes_no_word (hts : Sees [.name] ts) : Takes grammar (opt (.word "template")) ts [] ts :=
  .next (fails_of_glance hts (by decide)) (.first .nil)

/-- The parts of a qualified name are read up to the last one. -/
theorem takes_outers (h : IsPart .path ts) (hrest : Ahead typeEnds rest) (inner : Bool)
    {ps : List P} (hps : ∀ us, Sees [.name] us → Takes grammar (.seq ps) us [] us) :
    ∃ a last, IsPart .segment last ∧
      Takes grammar (.star (outerSegment inner ps)) (ts ++ rest) a (last ++ rest) := by
  generalize hpart : Part.path = part at h
  induction h with
  | single h => exact ⟨[], _, h, .star_nil (fails_outer h hrest inner ps)⟩
  | qualified h h' _ ih' =>
    obtain ⟨a, last, hlast, ha⟩ := ih' rfl
    obtain ⟨b, hb⟩ := takes_outer _ h inner (hps _ (h'.sees rfl rest))
    rw [List.append_assoc]
    exact ⟨b ++ a, last, hlast, hb.star_cons ha⟩
  | _ => cases hpart

/-- Template arguments may be ahead or not. -/
theorem angles_or (ts : List Token) :
    Takes grammar .angles ts [] ts ∨ Fails grammar .angles ts := by
  have hrun (m : Nat) : run grammar (m + 1) .angles ts = run grammar 1 .angles ts := rfl
  have hone : run grammar 1 .angles ts = some ([], ts) ∨ run grammar 1 .angles ts = none := by
    rw [run]
    split
    · split
      · exact .inl rfl
      · exact .inr rfl
    · exact .inr rfl
  exact hone.imp (fun h => ⟨1, fun m => (hrun m).trans h⟩) fun h => ⟨1, fun m => (hrun m).trans h⟩

/-- Behind a name that has been read with its template arguments or without. -/
def declaredEnds : List Look := .mark '<' :: typeEnds

/-- A name in a type can be read as a declared name, up to its template arguments or with them. -/
theorem takes_declared (h : IsPart .segment ts) (hrest : Ahead typeEnds rest) (name : Kind)
    (reserved : List String) (hreserved : reserved.all keywords.contains = true) :
    ∃ a mid, Takes grammar (declaredName name reserved) (ts ++ rest) a mid ∧
      Ahead declaredEnds mid := by
  have hsees := h.sees rfl rest
  have haccepts : Look.name.accepts? (.name name reserved) = some true := by
    simp only [Look.accepts?, Look.among?, Look.isWord, hreserved, if_true]
    rfl
  -- behind the name
  have hname {w lead : List Char} (hw : IsName w) {a : List Tree} {us mid : List Token}
      (hu : Takes grammar (opt (.seq [.angles, .rule .templateArguments])) us a mid) :
      Takes grammar (.seq [.name name reserved, opt (.seq [.angles, .rule .templateArguments])])
        (wordToken lead w :: us) ((wordToken lead w).leaf name :: a) mid :=
    .cons (takes_look rfl (hw.fits lead) haccepts) hu.last
  have hdeclared {a : List Tree} {mid : List Token} (ha : Takes grammar
      (.seq [.name name reserved, opt (.seq [.angles, .rule .templateArguments])]) (ts ++ rest) a
      mid) : Takes grammar (declaredName name reserved) (ts ++ rest) a mid :=
    .next (fails_of_glance hsees (by decide))
      (.next (fails_of_glance hsees (by decide)) (.first ha))
  cases h with
  | name hw =>
    have hnone : Fails grammar (.seq [.angles, .rule .templateArguments]) rest :=
      fails_of_ahead hrest (by decide)
    exact ⟨_, rest, hdeclared (hname hw (.next hnone (.first .nil))),
      hrest.mono fun _ => List.mem_cons_of_mem _⟩
  | @template ts lead lead' lead'' w hw h =>
    obtain ⟨x, -, -, hread⟩ := takes_arguments lead' lead'' h.read
    rw [List.cons_append, List.cons_append, List.append_assoc, List.singleton_append] at hdeclared ⊢
    rcases angles_or (markToken lead' '<' :: (ts ++ markToken lead'' '>' :: rest)) with
      hangles | hangles
    · exact ⟨_, rest, hdeclared (hname hw (.first (.skip hangles (hread rest).last))),
        hrest.mono fun _ => List.mem_cons_of_mem _⟩
    · exact ⟨_, _, hdeclared (hname hw (.next hangles.cons (.first .nil))),
        ahead_mark List.mem_cons_self⟩

/-- A pattern with a shape takes what the pattern takes. -/
theorem takes_shape (shape : List Tree → Option Kind) {p : P} (h : Takes grammar p ts a rest)
    (hts : Uncommented ts) : ∃ b, Takes grammar (.shaped shape p) ts b rest := by
  cases hshape : shape a with
  | none => exact ⟨_, .shapeless_front hts h hshape⟩
  | some kind => exact ⟨_, .shaped_front hts h hshape⟩

/-- A qualified name can be read as a declared name. -/
theorem takes_plain (h : IsPart .path ts) (hrest : Ahead typeEnds rest) :
    ∃ a mid, Takes grammar (.rule (.plainDeclarator .identifier)) (ts ++ rest) a mid ∧
      Ahead declaredEnds mid := by
  have hsees := h.sees rfl rest
  have huncommented := (h.begins.append rest).uncommented
  have hbinding : Fails grammar (.node .bindingDeclarator (.seq
      [.without (.mark "[["), .mark "[", sepBy (.name .identifier []) (.mark ","), .mark "]"]))
      (ts ++ rest) := fails_of_glance hsees (by decide)
  have hmark : Fails grammar (.mark "::") (ts ++ rest) := fails_of_glance hsees (by decide)
  have hskip : Takes grammar (opt (.mark "::")) (ts ++ rest) [] (ts ++ rest) :=
    .next hmark (.first .nil)
  cases h with
  | single h =>
    obtain ⟨a, mid, ha, hmid⟩ := takes_declared h hrest .identifier declaratorWords
      (by decide)
    obtain ⟨b, hb⟩ := takes_shape declaredShape ha huncommented
    refine ⟨b, mid, .rule (.next hbinding (.next (.shaped ?_) (.first hb))), hmid⟩
    rw [huncommented]
    exact .cons (.next (.behind hskip (fails_outer h hrest false _))
      (.next hmark (.alts (List.forall_mem_nil _))))
  | @qualified ts us lead h h' =>
    obtain ⟨a, last, hlast, ha⟩ := takes_outers h' hrest true fun us hus =>
      (takes_no_word hus).last
    obtain ⟨b, mid, hb, hmid⟩ := takes_declared hlast hrest .identifier innerWords
      (by decide)
    have hmore := hlast.sees rfl rest
    obtain ⟨d, hd⟩ := takes_outer lead h false
      (.skip (takes_no_word (h'.sees rfl rest)) ha.last)
    rw [List.append_assoc] at huncommented hbinding hskip ⊢
    obtain ⟨c, hc⟩ := takes_shape declaredShape (p := .seq
        [.alts
            [.seq [opt (.mark "::"), .rule (.segment false), .mark "::", opt (.word "template"),
               .star (.seq [.rule (.segment true), .mark "::", opt (.word "template")])],
             .mark "::"],
          .alts
            [.node .pointerDeclarator (.seq
               [.mark "*", .star (.rule .qualifier), .rule (.declarator .identifier)]),
             declaredName .identifier innerWords]])
      (.append (.first (.skip hskip hd))
        (.last (.next (fails_of_glance hmore (by decide)) (.first hb)))) huncommented
    exact ⟨c, mid, .rule (.next hbinding (.first hc)), hmid⟩

/-- **A type is not read as the name of a function.** -/
theorem fails_declared (h : IsPart .base ts) (hrest : Ahead typeEnds rest) :
    Fails grammar (.seq [.role .declarator (.rule (.plainDeclarator .identifier)),
      .rule .functionTail]) (ts ++ rest) := by
  cases h with
  | named h =>
    obtain ⟨a, mid, ha, hmid⟩ := takes_plain h hrest
    exact .behind ha.role (.cons (fails_of_ahead hmid (by decide)))
  | primitive hw =>
    exact fails_of_glance (sees_one (l := .word primitiveWords) ⟨rfl, hw⟩) (by decide)
  | sized hts | sizedPrimitive hts _ =>
    exact fails_of_glance (sees_one (hts _ List.mem_cons_self)) (by decide)

/-- **Nor is it read as the class in front of an operator.** -/
theorem fails_cast (h : IsPart .base ts) (hrest : Ahead typeEnds rest) (ps : List P) :
    Fails grammar (.seq (.star (.seq [.rule (.segment false), .mark "::"]) :: .word "operator" ::
      ps)) (ts ++ rest) := by
  have hword {us : List Token} {look : Look} (hsees : Sees [look] us)
      (hstar : (glance 100 (.seq [.rule (.segment false), .mark "::"]) [look]).isFails = true)
      (hoperator : (glance 100 (.word "operator") [look]).isFails = true) :
      Fails grammar (.seq (.star (.seq [.rule (.segment false), .mark "::"]) :: .word "operator" ::
        ps)) us :=
    .behind (.star_nil (fails_of_glance hsees hstar)) (.cons (fails_of_glance hsees hoperator))
  cases h with
  | named h =>
    obtain ⟨a, last, hlast, ha⟩ := takes_outers h hrest false fun _ _ => .nil
    exact .behind ha (.cons (fails_of_glance (hlast.sees rfl rest) (by decide)))
  | primitive hw =>
    exact hword (sees_one (l := .word primitiveWords) ⟨rfl, hw⟩) (by decide)
      (by decide)
  | sized hts | sizedPrimitive hts _ =>
    exact hword (sees_one (hts _ List.mem_cons_self)) (by decide) (by decide)

end Scaffold.Cpp
