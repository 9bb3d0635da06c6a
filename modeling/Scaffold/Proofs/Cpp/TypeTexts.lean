import Scaffold.Proofs.Cpp.Described
import Scaffold.Proofs.Cpp.Types

/-!
# Types as they are described

A description spells a type as its qualifiers, the type itself and what its declarator adds,
so that bounds of arrays come from the last one to the first.

* `TypeText` -- a type that is spelled like this; `TypeText.Valid`: it is written as a
  description writes it;
* `TypeText.turned` -- the same type with its bounds from the last one to the first;
* `takes_specifiers` -- the grammar reads the type up to its declarator;
* `spellType_eq` -- **what is described of it is the turned type**;
* `turned_text_iff` -- **it is the type itself exactly if its bounds read the same from either
  end**.
-/
namespace Scaffold.Cpp

open Grammar
open Pattern
open Text (isWord Normal)

variable {ts us rest : List Token} {t u : Token} {a b : List Tree} {lead w : List Char} {k : Kind}

/-! ## 1. Blank space -/

theorem relead_relead (lead lead' : List Char) (ts : List Token) :
    relead lead (relead lead' ts) = relead lead ts := by
  cases ts <;> rfl

theorem spelled_relead (lead : List Char) (hts : ts ≠ []) :
    spelled (relead lead ts) = lead ++ spelled (relead [] ts) := by
  cases ts with
  | nil => exact absurd rfl hts
  | cons t ts => simp [relead]

/-- Tokens that do not run into each other do not do so behind another blank space. -/
theorem Clear.relead (hlead : Gap lead) (h : Clear ts) : Clear (relead lead ts) := by
  cases ts with
  | nil => exact h
  | cons t ts =>
    obtain ⟨ht, hts⟩ := List.forall_mem_cons.mp h.simple
    refine ⟨List.forall_mem_cons.mpr ⟨⟨hlead, ht.text⟩, hts⟩, ?_⟩
    cases ts with
    | nil => exact .singleton _
    | cons u us => exact .cons_cons (List.isChain_cons_cons.mp h.apart).1 h.apart.tail

theorem standsOff_relead (hlead : lead ≠ []) (hts : ts ≠ []) (us : List Token) :
    StandsOff (relead lead ts ++ us) := by
  obtain ⟨t, ts, rfl⟩ := List.exists_cons_of_ne_nil hts
  exact .lead hlead

/-- Qualifiers apart from each other. -/
theorem clear_qualifiers {qs : List Token} (hqs : ∀ q ∈ qs, (Look.word qualifierWords).Fits q)
    (hleads : ∀ q ∈ qs, q.lead = [' ']) (hts : Clear ts) (hoff : StandsOff ts) :
    Clear (qs ++ ts) := by
  have hwords : ∀ w ∈ qualifierWords, isWord w.toList = true :=
    List.forall_iff_forall_mem.mp (by decide)
  refine .append ⟨fun q hq => ?_, ?_⟩ hts hoff
  · obtain ⟨hsort, htext⟩ := hqs q hq
    refine ⟨by rw [hleads q hq]; decide, .inl ⟨hsort, ?_⟩⟩
    rw [← String.toList_ofList (l := q.text)]
    exact hwords _ htext
  · refine List.Pairwise.isChain (List.pairwise_of_forall_mem_list fun q _ q' hq' => .inr (.inl ?_))
    rw [hleads q' hq']
    exact List.cons_ne_nil ' ' []

/-! ## 2. Turned bounds -/

namespace Layers

/-- The same with the bounds from the last one to the first. -/
def turned : Layers → Layers
  | nil => nil
  | lvalue lead => lvalue lead
  | rvalue lead => rvalue lead
  | bounds s ss =>
    match (s :: ss).reverse with
    | [] => nil
    | t :: ts => bounds t ts
  | pointer lead qs inner => pointer lead qs inner.turned

/-- It is written as a description writes it: nothing stands apart but qualifiers. -/
def Tidy : Layers → Prop
  | nil => True
  | lvalue lead | rvalue lead => lead = []
  | bounds s ss => ∀ x ∈ s :: ss, Bound x
  | pointer lead qs inner => lead = [] ∧ (∀ q ∈ qs, q.lead = [' ']) ∧ inner.Tidy

theorem turned_bounds (s : List Char) (ss : List (List Char)) :
    ∃ t ts, (s :: ss).reverse = t :: ts ∧ (bounds s ss).turned = bounds t ts := by
  obtain ⟨t, ts, h⟩ := List.exists_cons_of_ne_nil
    (List.reverse_ne_nil_iff.mpr (List.cons_ne_nil s ss))
  refine ⟨t, ts, h, ?_⟩
  rw [turned, h]

/-- **What a declarator adds to a type is written with its bounds turned.** -/
theorem suffix_eq {L : Layers} (h : L.Tidy) : L.suffix = spelled L.turned.tokens := by
  induction L with
  | nil => rfl
  | lvalue lead =>
    obtain rfl := h
    rfl
  | rvalue lead =>
    obtain rfl := h
    rfl
  | bounds s ss =>
    obtain ⟨t, ts, hreverse, hturned⟩ := turned_bounds s ss
    rw [hturned, tokens, spelled_dimensions, ← hreverse]
    rfl
  | pointer lead qs inner ih =>
    obtain ⟨rfl, hqs, hinner⟩ := h
    have hspelled : qs.flatMap (' ' :: ·.text) = spelled qs :=
      List.flatMap_congr fun q hq => by rw [hqs q hq]; rfl
    rw [suffix, ih hinner, hspelled]
    simp [turned, tokens]

theorem turned_of_boundless {L : Layers} (h : L.Boundless) : L.turned = L := by
  induction L with
  | nil | lvalue _ | rvalue _ => rfl
  | bounds _ _ => exact h.elim
  | pointer lead qs inner ih => rw [turned, ih h]

theorem turned_turned (L : Layers) : L.turned.turned = L := by
  induction L with
  | nil | lvalue _ | rvalue _ => rfl
  | bounds s ss =>
    obtain ⟨t, ts, hreverse, hturned⟩ := turned_bounds s ss
    rw [hturned, turned, ← hreverse, List.reverse_reverse]
  | pointer lead qs inner ih => rw [turned, turned, ih]

theorem valid_turned {L : Layers} (h : L.Valid) : L.turned.Valid := by
  induction L with
  | nil | lvalue _ | rvalue _ => trivial
  | bounds s ss =>
    obtain ⟨t, ts, -, hturned⟩ := turned_bounds s ss
    rw [hturned]
    trivial
  | pointer lead qs inner ih => exact ⟨h.1, ih h.2⟩

theorem tidy_turned {L : Layers} (h : L.Tidy) : L.turned.Tidy := by
  induction L with
  | nil | lvalue _ | rvalue _ => exact h
  | bounds s ss =>
    obtain ⟨t, ts, hreverse, hturned⟩ := turned_bounds s ss
    rw [hturned]
    intro x hx
    rw [← hreverse, List.mem_reverse] at hx
    exact h x hx
  | pointer lead qs inner ih => exact ⟨h.1, h.2.1, ih h.2.2⟩

/-- Turning changes nothing but bounds. -/
theorem turned_or (L : Layers) : L.turned = L ∨ '[' ∈ spelled L.tokens := by
  induction L with
  | nil | lvalue _ | rvalue _ => exact .inl rfl
  | bounds s ss =>
    refine .inr ?_
    rw [tokens, spelled_dimensions]
    exact List.mem_cons_self
  | pointer lead qs inner ih =>
    refine ih.imp (fun h => by rw [turned, h]) fun h => ?_
    simp [tokens, h]

/-- Bounds read the same from either end. -/
def Symmetric : Layers → Prop
  | nil | lvalue _ | rvalue _ => True
  | bounds s ss => (s :: ss).reverse = s :: ss
  | pointer _ _ inner => inner.Symmetric

theorem symmetric_of_boundless {L : Layers} (h : L.Boundless) : L.Symmetric := by
  induction L with
  | nil | lvalue _ | rvalue _ => trivial
  | bounds _ _ => exact h.elim
  | pointer _ _ inner ih => exact ih h

/-- **What a declarator adds is written the same with its bounds turned exactly if they read the
same from either end.** -/
theorem spelled_turned_iff {L : Layers} (h : L.Tidy) :
    spelled L.turned.tokens = spelled L.tokens ↔ L.Symmetric := by
  induction L with
  | nil | lvalue _ | rvalue _ => exact iff_of_true rfl trivial
  | bounds s ss =>
    obtain ⟨t, ts, hreverse, hturned⟩ := turned_bounds s ss
    have hbounds : ∀ x ∈ t :: ts, Bound x := fun x hx =>
      h x (List.mem_reverse.mp (hreverse ▸ hx))
    rw [hturned, tokens, tokens, spelled_dimensions, spelled_dimensions, Symmetric, hreverse]
    exact ⟨dimensions_inj hbounds h, congrArg dimensions⟩
  | pointer lead qs inner ih =>
    rw [turned, tokens, tokens, spelled_cons, spelled_cons, spelled_append, spelled_append,
      List.append_cancel_left_eq, List.append_cancel_left_eq, ih h.2.2]
    rfl

theorem standsOff (L : Layers) (hoff : StandsOff ts) : StandsOff (L.tokens ++ ts) := by
  cases L with
  | nil => exact hoff
  | lvalue _ | rvalue _ | bounds _ _ | pointer _ _ _ => exact .mark rfl

/-- None of the tokens runs into the next. -/
theorem clear_tokens {L : Layers} (hL : L.Valid) (h : L.Tidy) (hts : Clear ts)
    (hoff : StandsOff ts) : Clear (L.tokens ++ ts) := by
  induction L with
  | nil => exact hts
  | lvalue lead =>
    obtain rfl := h
    exact .mark (by decide) (by decide) hts
  | rvalue lead =>
    obtain rfl := h
    exact .mark (by decide) (by decide) (.mark (by decide) (by decide) hts)
  | bounds s ss => exact clear_bounds h hts
  | pointer lead qs inner ih =>
    obtain ⟨rfl, hleads, htidy⟩ := h
    obtain ⟨hqs, hinner⟩ := hL
    have hinside := ih hinner htidy
    rw [tokens, List.cons_append, List.append_assoc]
    exact .mark (by decide) (by decide)
      (clear_qualifiers hqs hleads hinside (inner.standsOff hoff))

end Layers

/-! ## 3. Types with their qualifiers -/

/-- A type as a description spells it. -/
structure TypeText where
  /-- Qualifiers in front of the type. -/
  qualifiers : List (List Char)
  /-- The type itself. -/
  base : List Token
  /-- What its declarator adds. -/
  layers : Layers

/-- The qualifiers that are described. -/
def describedQualifiers : List String := ["const", "volatile"]

namespace TypeText

/-- The tokens, behind a blank space. -/
def tokens (T : TypeText) (lead : List Char) : List Token :=
  relead lead (T.qualifiers.map (wordToken [' ']) ++ (relead [' '] T.base ++ T.layers.tokens))

/-- The text. -/
def text (T : TypeText) : List Char := spelled (T.tokens [])

/-- The type with its bounds from the last one to the first. -/
def turned (T : TypeText) : TypeText := { T with layers := T.layers.turned }

/-- It is written as a description writes it. -/
structure Valid (T : TypeText) : Prop where
  qualifiers : ∀ q ∈ T.qualifiers, String.ofList q ∈ describedQualifiers
  base : IsPart .base T.base
  clear : Clear T.base
  /-- There is at most one space between two tokens of the type itself. -/
  even : ∀ t ∈ T.base, t.lead = [] ∨ t.lead = [' ']
  layers : T.layers.Valid
  tidy : T.layers.Tidy

variable {T : TypeText}

theorem Valid.turned (h : T.Valid) : T.turned.Valid :=
  ⟨h.qualifiers, h.base, h.clear, h.even, Layers.valid_turned h.layers, Layers.tidy_turned h.tidy⟩

end TypeText

/-- The tokens of a type: its qualifiers, and the type itself with its declarator behind. -/
structure TypeText.Parts (T : TypeText) (ts : List Token) where
  qualifiers : List Token
  base : List Token
  tokens : ts = qualifiers ++ (base ++ T.layers.tokens)
  fits : ∀ q ∈ qualifiers, (Look.word describedQualifiers).Fits q
  texts : qualifiers.map (·.text) = T.qualifiers
  isBase : IsPart .base base
  text : spelled (relead [] base) = spelled (relead [] T.base)

/-- **The parts of a type**, whatever blank space it stands behind. -/
theorem TypeText.Valid.parts {T : TypeText} (h : T.Valid) (lead : List Char) :
    Nonempty (T.Parts (T.tokens lead)) := by
  have hne := (h.base.relead [' ']).begins.ne_nil
  have hrelead := relead_append lead hne T.layers.tokens
  rw [relead_relead] at hrelead
  cases hqs : T.qualifiers with
  | nil =>
    exact ⟨⟨[], relead lead T.base, by rw [tokens, hqs]; exact hrelead, List.forall_mem_nil _,
      hqs.symm, h.base.relead lead, by rw [relead_relead]⟩⟩
  | cons q qs =>
    have hwords := h.qualifiers
    rw [hqs] at hwords
    refine ⟨⟨wordToken lead q :: qs.map (wordToken [' ']), relead [' '] T.base, ?_, ?_, ?_,
      h.base.relead [' '], by rw [relead_relead]⟩⟩
    · rw [tokens, hqs]
      rfl
    · refine List.forall_mem_cons.mpr ⟨⟨rfl, hwords q List.mem_cons_self⟩, fun t ht => ?_⟩
      obtain ⟨w, hw, rfl⟩ := List.mem_map.mp ht
      exact ⟨rfl, hwords w (List.mem_cons_of_mem q hw)⟩
    · simp [hqs, Function.comp_def]

/-! ## 4. Their text -/

theorem Token.Simple.visible (h : t.Simple) : ∀ c ∈ t.text, Text.isBlank c = false := by
  have hdigits : ∀ c ∈ digits, Text.isBlank c = false := List.forall_iff_forall_mem.mp (by decide)
  have hmarks : ∀ c ∈ plainMarks, Text.isBlank c = false :=
    List.forall_iff_forall_mem.mp (by decide)
  obtain ⟨-, hword⟩ | ⟨-, hnumber, -⟩ | ⟨-, c, hc, htext⟩ := h.text
  · exact Text.isBlank_of_isWord hword
  · exact fun c hc => hdigits c (hnumber c hc)
  · rw [htext]
    exact List.forall_mem_singleton.mpr (hmarks c hc)

/-- Tokens with at most one space in between lead from the end of a word to the end of a word. -/
theorem walk_spelled (h : ∀ t ∈ ts, t.Simple) (heven : ∀ t ∈ ts, t.lead = [] ∨ t.lead = [' ']) :
    (spelled ts).foldl Text.spacing (some false) = some false := by
  induction ts with
  | nil => rfl
  | cons t ts ih =>
    obtain ⟨ht, hts⟩ := List.forall_mem_cons.mp h
    obtain ⟨hlead, hleads⟩ := List.forall_mem_cons.mp heven
    obtain ⟨b, hb⟩ : ∃ b, t.lead.foldl Text.spacing (some false) = some b := by
      rcases hlead with hlead | hlead <;> exact hlead ▸ ⟨_, rfl⟩
    rw [spelled_cons, List.foldl_append, List.foldl_append, hb,
      Text.foldl_visible ht.ne_nil ht.visible, ih hts hleads]

/-- **The text of such tokens is in normal form.** -/
theorem normal_spelled (hts : ts ≠ []) (h : ∀ t ∈ ts, t.Simple)
    (heven : ∀ t ∈ ts, t.lead = [] ∨ t.lead = [' ']) : Normal (spelled (relead [] ts)) := by
  obtain ⟨t, ts, rfl⟩ := List.exists_cons_of_ne_nil hts
  obtain ⟨ht, hsimple⟩ := List.forall_mem_cons.mp h
  refine Text.normal_iff.mpr (.inr ?_)
  change ([] ++ t.text ++ spelled ts).foldl Text.spacing (some true) = _
  rw [List.nil_append, List.foldl_append, Text.foldl_visible ht.ne_nil ht.visible]
  exact walk_spelled hsimple (List.forall_mem_cons.mp heven).2

namespace TypeText

variable {T : TypeText}

/-- The text is made of the qualifiers, the type itself and what is behind. -/
theorem text_eq (h : T.Valid) : T.text =
    [' '].intercalate (T.qualifiers ++ [spelled (relead [] T.base)]) ++
      spelled T.layers.tokens := by
  have hne := (h.base.relead [' ']).begins.ne_nil
  rw [text, tokens]
  induction T.qualifiers with
  | nil =>
    rw [List.map_nil, List.nil_append, relead_append [] hne, relead_relead, spelled_append,
      List.nil_append, List.intercalate_singleton]
  | cons q qs ih =>
    -- what is behind a qualifier stands behind a space
    have hspace : qs.map (wordToken [' ']) ++ (relead [' '] T.base ++ T.layers.tokens) =
        relead [' '] (qs.map (wordToken [' ']) ++ (relead [' '] T.base ++ T.layers.tokens)) := by
      cases qs with
      | nil => rw [List.map_nil, List.nil_append, relead_append [' '] hne, relead_relead]
      | cons q qs => rfl
    have hmore : qs.map (wordToken [' ']) ++ (relead [' '] T.base ++ T.layers.tokens) ≠ [] := by
      simp [hne]
    have hfirst : relead [] ((q :: qs).map (wordToken [' ']) ++
        (relead [' '] T.base ++ T.layers.tokens)) =
        wordToken [] q :: (qs.map (wordToken [' ']) ++ (relead [' '] T.base ++ T.layers.tokens)) :=
      rfl
    have hjoin : [' '].intercalate (q :: (qs ++ [spelled (relead [] T.base)])) =
        q ++ [' '] ++ [' '].intercalate (qs ++ [spelled (relead [] T.base)]) :=
      List.intercalate_cons_of_ne_nil (by simp)
    rw [hfirst, spelled_cons, hspace, spelled_relead [' '] hmore, ih]
    exact (by simp [hjoin])

/-- **A type is written the same with its bounds turned exactly if they read the same from either
end.** -/
theorem turned_text_iff (h : T.Valid) : T.turned.text = T.text ↔ T.layers.Symmetric := by
  rw [text_eq h, text_eq h.turned, turned, List.append_cancel_left_eq]
  exact Layers.spelled_turned_iff h.tidy

/-- The blank space in front of a type is written in front of it. -/
theorem spelled_tokens (h : T.Valid) (lead : List Char) :
    spelled (T.tokens lead) = lead ++ T.text := by
  have hne : T.qualifiers.map (wordToken [' ']) ++
      (relead [' '] T.base ++ T.layers.tokens) ≠ [] := by
    simp [(h.base.relead [' ']).begins.ne_nil]
  rw [tokens, spelled_relead lead hne]
  rfl

/-- **What is described of a type is the type with its bounds turned.** -/
theorem spellType_eq (h : T.Valid) {d type : Tree}
    (hqualifiers : (d.namedChildren.filter (·.kind == .typeQualifier)).map Tree.text = T.qualifiers)
    (htype : type.text = spelled (relead [] T.base)) :
    Tree.spellType d type T.layers.suffix = T.turned.text := by
  have hnormal : Text.squeeze type.text = type.text := by
    rw [htype]
    exact normal_spelled h.base.begins.ne_nil h.clear.simple h.even
  have hall : T.qualifiers.filter (fun q => q == "const".toList || q == "volatile".toList) =
      T.qualifiers := by
    refine List.filter_eq_self.mpr fun q hq => ?_
    have hmem := h.qualifiers q hq
    simp only [describedQualifiers, List.mem_cons, List.not_mem_nil, or_false] at hmem
    rcases hmem with hmem | hmem <;> simp [← hmem]
  rw [Tree.spellType, hqualifiers, hnormal, hall, htype, Layers.suffix_eq h.tidy, text_eq h.turned]
  rfl

/-- Behind a blank space a type runs into nothing. -/
theorem standsOff (h : T.Valid) (hlead : lead ≠ []) (ts : List Token) :
    StandsOff (T.tokens lead ++ ts) :=
  standsOff_relead hlead (by simp [(h.base.relead [' ']).begins.ne_nil]) ts

/-- None of the tokens runs into the next. -/
theorem clear_tokens (h : T.Valid) (hlead : Gap lead) (hts : Clear ts) (hoff : StandsOff ts) :
    Clear (T.tokens lead ++ ts) := by
  have hne := (h.base.relead [' ']).begins.ne_nil
  have hlayers := T.layers.clear_tokens h.layers h.tidy hts hoff
  have hbase : Clear (relead [' '] T.base ++ (T.layers.tokens ++ ts)) :=
    .append (h.clear.relead (by decide)) hlayers (T.layers.standsOff hoff)
  have hspace : StandsOff (relead [' '] T.base ++ (T.layers.tokens ++ ts)) :=
    standsOff_relead (List.cons_ne_nil ' ' []) h.base.begins.ne_nil _
  have hqualifiers : ∀ q ∈ T.qualifiers.map (wordToken [' ']),
      (Look.word qualifierWords).Fits q ∧ q.lead = [' '] := by
    intro q hq
    obtain ⟨w, hw, rfl⟩ := List.mem_map.mp hq
    have hdescribed : ∀ x ∈ describedQualifiers, x ∈ qualifierWords :=
      List.forall_iff_forall_mem.mp (by decide)
    exact ⟨⟨rfl, hdescribed _ (h.qualifiers w hw)⟩, rfl⟩
  rw [tokens, ← relead_append lead (by simp [hne]), List.append_assoc, List.append_assoc]
  exact .relead hlead (clear_qualifiers (fun q hq => (hqualifiers q hq).1)
    (fun q hq => (hqualifiers q hq).2) hbase hspace)

end TypeText

/-! ## 5. What the grammar reads -/

/-- The first looks at the bounds of an array. -/
def boundLooks : List (List Look) := [[.mark '[', .number], [.mark '[', .mark ']']]

/-- A pattern that fails at the bounds of an array. -/
theorem Layers.fails_bounds {p : P} (s : List Char) (ss : List (List Char)) (rest : List Token)
    (h : boundLooks.all (fun ls => (glance 100 p ls).isFails) = true) :
    Fails grammar p ((bounds s ss).tokens ++ rest) := by
  simp only [boundLooks, List.all_cons, List.all_nil, Bool.and_eq_true, Bool.and_true] at h
  have hopen : (Look.mark '[').Fits (markToken [] '[') := ⟨rfl, rfl⟩
  cases s with
  | nil => exact fails_of_glance (sees_cons hopen sees_mark) h.2
  | cons c s =>
    have hnumber : Look.number.Fits (numberToken [] (c :: s)) := rfl
    exact fails_of_glance (sees_cons hopen (sees_one hnumber)) h.1

/-- A pattern that fails at pointers, references, bounds and what is behind them. -/
theorem Layers.fails_tokens {p : P} (L : Layers) {looks : List Look} (hrest : Ahead looks rest)
    (hlooks : (.mark '*' :: .mark '&' :: looks).all (fun l => (glance 100 p [l]).isFails) = true)
    (hbounds : boundLooks.all (fun ls => (glance 100 p ls).isFails) = true) :
    Fails grammar p (L.tokens ++ rest) := by
  rw [List.all_cons, List.all_cons, Bool.and_eq_true, Bool.and_eq_true] at hlooks
  obtain ⟨hpointer, hreference, hmore⟩ := hlooks
  cases L with
  | nil => exact fails_of_ahead hrest hmore
  | lvalue _ | rvalue _ => exact fails_of_glance sees_mark hreference
  | pointer _ _ _ => exact fails_of_glance sees_mark hpointer
  | bounds s ss => exact fails_bounds s ss rest hbounds

/-- How a type goes on behind its qualifiers. -/
def baseStarts : List Look := [.word primitiveWords, .word sizeWords, .name]

/-- The qualifiers of a type are modifiers of what is declared. -/
theorem TypeText.Parts.takes_qualifiers {T : TypeText} (P : T.Parts ts)
    (hus : Ahead baseStarts us) :
    Takes grammar (.star (.rule .modifier)) (P.qualifiers ++ us)
      (P.qualifiers.map (Token.leaf .typeQualifier)) us := by
  refine .star_map (fun q hq vs => ?_) (fails_of_ahead hus (by decide))
  have hlook := P.fits q hq
  exact takes_alternative 1 rfl rfl (sees_one hlook) (by decide)
    (.rule (.first (takes_look rfl hlook (by decide))))

/-- **A type is read with the modifiers in front of it**, up to what is behind. -/
theorem takes_specifiers {front base : List Token} (hbase : IsPart .base base) {x : Tree}
    (hfront : ∀ us, Ahead baseStarts us →
      Takes grammar (.star (.rule .modifier)) (front ++ us) a us)
    (hread : Takes grammar (.rule .type) (base ++ rest) [x] rest)
    (hrest : Fails grammar (.rule .modifier) rest) :
    Takes grammar (.rule .specifiers) (front ++ (base ++ rest)) (a ++ [x.withRole .type]) rest :=
  .rule (.append (hfront _ (hbase.begins.append rest).ahead)
    (.cons hread.role (.last (.star_nil hrest))))

/-- How a type begins. -/
theorem TypeText.Parts.begins {T : TypeText} (P : T.Parts ts) (us : List Token) :
    Begins (.word describedQualifiers :: baseStarts) (ts ++ us) := by
  rw [P.tokens, List.append_assoc]
  exact Layers.begins_qualifiers P.fits ((P.isBase.begins.append _).append us)

end Scaffold.Cpp
