import Scaffold.Proofs.Cpp.Readings

/-!
# What a first look tells

Of the alternatives of the grammar most fail on the first tokens, whatever comes behind.

* `keywords` -- the words that the grammar knows: all other words are alike to it;
* `Look`, `Sees` -- what is told of the first tokens of a text;
* `glance` -- what a pattern does on tokens of which no more is told;
* `glance_sound` -- **it does so on all such tokens**; `fails_of_glance`: so a pattern that
  fails at a glance fails.
-/
namespace Scaffold.Cpp

open Grammar
open Pattern

/-! ## 1. Looks -/

/-- The words that the grammar knows. -/
def keywords : List String :=
  primitiveWords ++ sizeWords ++ qualifierWords ++ storageWords ++ callWords ++ pointerWords ++
    attributeWords ++ itemWords ++ memberWords ++ operandWords ++
    ["struct", "class", "union", "enum", "typename", "decltype", "auto", "virtual", "final",
     "override", "noexcept", "requires", "and", "or", "xor", "bitand", "bitor", "not_eq", "and_eq",
     "or_eq", "xor_eq", "not", "compl", "alignof", "_Alignof", "typeid", "offsetof", "true",
     "false"]

/-- What is told of a token. -/
inductive Look where
  /-- It is one of the words. -/
  | word (texts : List String)
  /-- It is a word that the grammar does not know. -/
  | name
  | number
  | mark (c : Char)
  | directive (label : String)
  /-- There is none: the text ends. -/
  | ending

/-- The token is as told. -/
def Look.Fits : Look → Token → Prop
  | .word texts, t => t.sort = .word ∧ String.ofList t.text ∈ texts
  | .name, t => t.sort = .word ∧ String.ofList t.text ∉ keywords
  | .number, t => t.sort = .number
  | .mark c, t => t.sort = .mark ∧ t.text = [c]
  | .directive label, t => t.sort = .directive label.toList
  | .ending, _ => False

/-- The first tokens but for comments are as told. -/
def Sees : List Look → List Token → Prop
  | [], _ => True
  | l :: ls, ts =>
    match (splitComments ts).2 with
    | [] => l = .ending
    | t :: ts => l.Fits t ∧ Sees ls ts

/-- The token is a word. -/
def Look.isWord : Look → Bool
  | .word _ | .name => true
  | _ => false

/-- Whether the token is one of the words; none where that is not told. -/
def Look.among? (l : Look) (texts : List String) : Option Bool :=
  match l with
  | .word ws =>
    if ws.all texts.contains then some true
    else if ws.any texts.contains then none else some false
  | .name => if texts.all keywords.contains then some false else none
  | _ => some false

/-- Whether a pattern for one token takes such a token; none where that is not told. -/
def Look.accepts? (l : Look) : P → Option Bool
  | .word text => l.among? [text]
  | .oneOf _ texts => l.among? texts
  | .name _ reserved => if l.isWord then (l.among? reserved).map not else some false
  | .directive _ names =>
    match l with
    | .directive label => some (names.contains label)
    | _ => some false
  | .otherDirective _ names =>
    match l with
    | .directive label => some (!names.contains label)
    | _ => some false
  | .sort _ wanted =>
    match l with
    | .word _ | .name => some (.word == wanted)
    | .number => some (.number == wanted)
    | .mark _ => some (.mark == wanted)
    | .directive label => some (.directive label.toList == wanted)
    | .ending => some false
  | _ => none

/-- The token is the mark. -/
def Look.isMark (l : Look) (c : Char) : Bool :=
  match l with
  | .mark d => d == c
  | _ => false

/-! ## 2. Glances -/

/-- What a pattern does on tokens of which only the first are told. -/
inductive Verdict where
  | fails
  /-- It takes some of them and leaves others. -/
  | takes (rest : List Look)
  /-- That depends on what is not told. -/
  | unclear

def Verdict.isFails : Verdict → Bool
  | .fails => true
  | _ => false

def Verdict.isTakes : Verdict → Bool
  | .takes _ => true
  | _ => false

/-- What is done where the pattern fails, and where it takes some tokens. -/
def Verdict.after (v w : Verdict) (f : List Look → Verdict) : Verdict :=
  match v with
  | .fails => w
  | .takes ls => f ls
  | .unclear => .unclear

/-- What a mark does at the first look. Of the second it is only told where it is another. -/
def glanceMark : List Char → List Look → Verdict
  | c :: cs, l :: ls =>
    if l.isMark c then
      match cs, ls with
      | [], ls => .takes ls
      | d :: _, l :: _ => if l.isMark d then .unclear else .fails
      | _ :: _, [] => .unclear
    else .fails
  | _, _ => .unclear

/-- What a bracket does at the first look. -/
def glanceOpener (c : Char) : List Look → Verdict
  | l :: _ => if l.isMark c then .unclear else .fails
  | [] => .unclear

/-- What a pattern for one token does at the first look. -/
def glanceToken (p : P) : List Look → Verdict
  | l :: ls =>
    match l.accepts? p with
    | some true => .takes ls
    | some false => .fails
    | none => .unclear
  | [] => .unclear

/-- What the pattern does, by its parts. -/
def glance : Nat → P → List Look → Verdict
  | 0, _, _ => .unclear
  | n + 1, p, ls =>
    match p with
    | .seq [] => .takes ls
    | .seq (p :: ps) => (glance n p ls).after .fails (glance n (.seq ps))
    | .alts [] => .fails
    | .alts (p :: ps) => (glance n p ls).after (glance n (.alts ps) ls) .takes
    | .star p => (glance n p ls).after (.takes ls) (glance n (.star p))
    | .rule x => glance n (grammar x) ls
    | .node _ p | .shaped _ p | .role _ p => glance n p ls
    | .ahead p => (glance n p ls).after .fails fun _ => .takes ls
    | .without p => (glance n p ls).after (.takes ls) fun _ => .fails
    | .grow base _ tails => (glance n base ls).after .fails fun ls =>
        if tails.all fun t => (glance n t.2 ls).isFails then .takes ls else .unclear
    | .mark text => glanceMark text.toList ls
    | .group opener _ | .closed opener _ => glanceOpener opener ls
    | .angles => glanceOpener '<' ls
    | .missing | .items .. => .unclear
    | p => glanceToken p ls

/-! ## 3. Soundness -/

variable {p : P} {l : Look} {ls : List Look} {ts rest : List Token} {t : Token}

theorem splitComments_idem (ts : List Token) :
    splitComments (splitComments ts).2 = ([], (splitComments ts).2) := by
  induction ts with
  | nil => rfl
  | cons t ts ih =>
    by_cases h : t.sort = .comment
    · have hcons : (splitComments (t :: ts)).2 = (splitComments ts).2 := by
        rw [splitComments, if_pos (by simpa using h)]
      rw [hcons]
      exact ih
    · rw [splitComments_of_ne h]
      exact splitComments_of_ne h

theorem sees_split : Sees ls (splitComments ts).2 ↔ Sees ls ts := by
  cases ls with
  | nil => exact Iff.rfl
  | cons l ls =>
    rw [Sees, Sees, splitComments_idem]

theorem Look.Fits.ne_comment (h : l.Fits t) : t.sort ≠ .comment := by
  intro hsort
  cases l <;> simp [Look.Fits, hsort] at h

/-- Tokens in sight one by one. -/
theorem sees_cons (ht : l.Fits t) (hts : Sees ls ts) : Sees (l :: ls) (t :: ts) := by
  rw [Sees, splitComments_of_ne ht.ne_comment]
  exact ⟨ht, hts⟩

/-- One token in sight. -/
theorem sees_one (ht : l.Fits t) : Sees [l] (t :: ts) := sees_cons ht trivial

theorem Look.Fits.isWord (h : l.Fits t) : l.isWord = (t.sort == .word) := by
  cases l with
  | word texts => rw [h.1]; rfl
  | name => rw [h.1]; rfl
  | number => rw [Look.Fits] at h; rw [h]; rfl
  | mark c => rw [h.1]; rfl
  | directive label => rw [Look.Fits] at h; rw [h]; rfl
  | ending => cases h

theorem Look.among?_sound {texts : List String} {b : Bool} (hl : l.Fits t)
    (h : l.among? texts = some b) :
    (t.sort == .word && texts.contains (String.ofList t.text)) = b := by
  rw [← hl.isWord]
  cases l with
  | word ws =>
    obtain ⟨-, htext⟩ := hl
    rw [Look.among?] at h
    split at h
    · rename_i hall
      rw [← Option.some.inj h]
      exact List.all_eq_true.mp hall _ htext
    · split at h
      · cases h
      · rename_i hnone
        rw [← Option.some.inj h]
        exact eq_false_of_ne_true fun hmem => hnone (List.any_eq_true.mpr ⟨_, htext, hmem⟩)
  | name =>
    obtain ⟨-, htext⟩ := hl
    rw [Look.among?] at h
    split at h
    · rename_i hknown
      rw [← Option.some.inj h]
      refine eq_false_of_ne_true fun hmem => htext ?_
      exact List.contains_iff_mem.mp
        (List.all_eq_true.mp hknown _ (List.contains_iff_mem.mp hmem))
    · cases h
  | number | mark c | directive label =>
    rw [← Option.some.inj h]
    rfl
  | ending => cases hl

/-- What a pattern for one token does at a look. -/
theorem Look.accepts?_sound {kind : Kind} {accepts : Token → Bool} {b : Bool}
    (hp : p.token? = some (kind, accepts)) (hl : l.Fits t) (h : l.accepts? p = some b) :
    accepts t = b := by
  have hword := hl.isWord
  cases p <;> cases hp
  case word text =>
    rw [← among?_sound hl h]
    have htext : (t.text == text.toList) = [text].contains (String.ofList t.text) := by
      rw [Bool.eq_iff_iff, beq_iff_eq, List.contains_iff_mem, List.mem_singleton,
        ← String.toList_inj, String.toList_ofList]
    exact congrArg _ htext
  case oneOf texts => exact among?_sound hl h
  case name reserved =>
    rw [accepts?] at h
    split at h
    · rename_i hisWord
      obtain ⟨b, hb, rfl⟩ := Option.map_eq_some_iff.mp h
      rw [← among?_sound hl hb]
      dsimp only
      rw [← hword, hisWord]
      rfl
    · rename_i hisWord
      rw [← Option.some.inj h]
      dsimp only
      rw [← hword, Bool.eq_false_iff.mpr hisWord]
      rfl
  case directive names =>
    cases l with
    | ending => cases hl
    | _ => simp_all [Look.Fits, accepts?]
  case otherDirective names =>
    cases l with
    | ending => cases hl
    | _ => simp_all [Look.Fits, accepts?]
  case sort wanted =>
    cases l with
    | ending => cases hl
    | _ => simp_all [Look.Fits, accepts?]

/-- The pattern does as it is told. -/
def Verdict.Holds (p : P) (ts : List Token) : Verdict → Prop
  | .fails => Fails grammar p ts
  | .takes ls => ∃ a rest, Takes grammar p ts a rest ∧ Sees ls rest
  | .unclear => True

/-- A token that a pattern takes or refuses at a look. -/
theorem holds_token {kind : Kind} {accepts : Token → Bool} (hp : p.token? = some (kind, accepts))
    (hs : Sees ls ts) : (glanceToken p ls).Holds p ts := by
  cases ls with
  | nil => trivial
  | cons l ls =>
    have hsplit : splitComments ts = ((splitComments ts).1, (splitComments ts).2) := rfl
    rw [glanceToken]
    rw [Sees] at hs
    split at hs
    · rename_i heq
      subst hs
      have hnone : Look.ending.accepts? p = some false := by cases p <;> cases hp <;> rfl
      rw [hnone]
      refine Fails.token hp fun t ht => ?_
      rw [heq] at ht
      cases ht
    · rename_i t ts' heq
      obtain ⟨ht, hts⟩ := hs
      split
      · rename_i htrue
        rw [heq] at hsplit
        exact ⟨_, _, .token hp hsplit (Look.accepts?_sound hp ht htrue), hts⟩
      · rename_i hfalse
        refine Fails.token hp fun u hu => ?_
        rw [heq] at hu
        obtain rfl := Option.some.inj hu
        exact Look.accepts?_sound hp ht hfalse
      · trivial

/-- The first mark ahead. -/
theorem isMark_iff {c : Char} (hl : l.Fits t) :
    l.isMark c = (t.sort == .mark && t.text == [c]) := by
  cases l with
  | mark d =>
    obtain ⟨hsort, htext⟩ := hl
    rw [hsort, htext]
    simp [Look.isMark]
  | word _ | name =>
    rw [hl.1]
    rfl
  | number | directive _ =>
    rw [Look.Fits] at hl
    rw [hl]
    rfl
  | ending => cases hl

/-- The mark is not ahead. -/
theorem marks_none {c : Char} (cs : List Char) (hs : Sees (l :: ls) ts) (hl : l.isMark c = false) :
    marks (c :: cs) ts = none := by
  rw [Sees] at hs
  rw [marks.eq_def]
  split
  · rename_i heq htext heq'
    obtain ⟨rfl, rfl⟩ := List.cons.inj htext
    rw [heq'] at hs
    rw [← isMark_iff hs.1, hl]
    rfl
  · rfl

/-- The rest of a mark does not follow on its first character. -/
theorem markRest_none {d : Char} (ds : List Char) (hs : Sees (l :: ls) ts)
    (hl : l.isMark d = false) : markRest (d :: ds) ts = none := by
  cases ts with
  | nil => rfl
  | cons t ts =>
    rw [markRest]
    by_cases hcomment : t.sort = .comment
    · rw [hcomment]
      rfl
    · rw [Sees, splitComments_of_ne hcomment] at hs
      have hmark := isMark_iff (c := d) hs.1
      rw [hl] at hmark
      rw [if_neg]
      simp only [Bool.and_eq_true, not_and] at hmark ⊢
      intro hsort htext
      simp [hsort.1, htext] at hmark

theorem glanceMark_sound {text : String} (hs : Sees ls ts) :
    (glanceMark text.toList ls).Holds (.mark text) ts := by
  unfold glanceMark
  split
  · rename_i c cs l ls htext
    split
    · rename_i hfirst
      -- the first character is there
      have hsees := hs
      rw [Sees] at hs
      have hsplit : splitComments ts = ((splitComments ts).1, (splitComments ts).2) := rfl
      split at hs
      · subst hs
        cases hfirst
      · rename_i t ts' heq
        obtain ⟨ht, hts⟩ := hs
        rw [isMark_iff ht, Bool.and_eq_true, beq_iff_eq, beq_iff_eq] at hfirst
        rw [heq] at hsplit
        split
        · exact ⟨_, _, .mark htext hsplit hfirst.1 hfirst.2, hts⟩
        · rename_i d ds l' ls'
          split
          · trivial
          · rename_i hsecond
            refine ⟨1, fun m => (run_mark text m).trans ?_⟩
            rw [htext, marks.eq_def, hsplit]
            dsimp only
            rw [markRest_none ds hts (Bool.eq_false_iff.mpr hsecond), Option.map_none, ite_self]
        · trivial
    · rename_i hfirst
      refine ⟨1, fun m => (run_mark text m).trans ?_⟩
      rw [htext]
      exact marks_none cs hs (Bool.eq_false_iff.mpr hfirst)
  · trivial

theorem bracket_none {opener closer : Char} (hs : Sees (l :: ls) ts)
    (hl : l.isMark opener = false) : bracket opener closer ts = none := by
  rw [bracket, marks_none [] hs hl]
  rfl

/-- What is done after a pattern, by what it does. -/
theorem Verdict.Holds.after {q : P} {v w : Verdict} {us : List Token} {f : List Look → Verdict}
    (h : v.Holds p ts) (hfails : Fails grammar p ts → w.Holds q us)
    (htakes : ∀ a rest ls, Takes grammar p ts a rest → Sees ls rest → (f ls).Holds q us) :
    (v.after w f).Holds q us := by
  cases v with
  | fails => exact hfails h
  | takes ls =>
    obtain ⟨a, rest, ha, hrest⟩ := h
    exact htakes a rest ls ha hrest
  | unclear => trivial

/-- A pattern that does as another. -/
theorem Verdict.Holds.imp {q : P} {v : Verdict} {us : List Token} (h : v.Holds p ts)
    (hfails : Fails grammar p ts → Fails grammar q us)
    (htakes : ∀ a rest, Takes grammar p ts a rest → ∃ b, Takes grammar q us b rest) :
    v.Holds q us := by
  cases v with
  | fails => exact hfails h
  | takes ls =>
    obtain ⟨a, rest, ha, hrest⟩ := h
    obtain ⟨b, hb⟩ := htakes a rest ha
    exact ⟨b, rest, hb, hrest⟩
  | unclear => trivial

theorem Verdict.fails_of {v : Verdict} (h : v.Holds p ts) (hfails : v.isFails = true) :
    Fails grammar p ts := by
  cases v with
  | fails => exact h
  | takes _ | unclear => cases hfails

theorem glanceOpener_sound {c : Char}
    (h : ∀ l ls', Sees (l :: ls') ts → l.isMark c = false → Fails grammar p ts)
    (hs : Sees ls ts) : (glanceOpener c ls).Holds p ts := by
  unfold glanceOpener
  split
  · split
    · trivial
    · rename_i hother
      exact h _ _ hs (Bool.eq_false_iff.mpr hother)
  · trivial

/-- **What is told at a glance holds of all tokens in sight.** -/
theorem glance_sound (n : Nat) (p : P) {ls : List Look} {ts : List Token} (hs : Sees ls ts) :
    (glance n p ls).Holds p ts := by
  induction n generalizing p ls ts with
  | zero => trivial
  | succ n ih =>
    have hsplit := sees_split.mpr hs
    cases p with
    | word _ => exact holds_token rfl hs
    | oneOf _ _ => exact holds_token rfl hs
    | name _ _ => exact holds_token rfl hs
    | directive _ _ => exact holds_token rfl hs
    | otherDirective _ _ => exact holds_token rfl hs
    | sort _ _ => exact holds_token rfl hs
    | mark text => exact glanceMark_sound hs
    | group opener closer =>
      exact glanceOpener_sound (fun l ls hs hl => ⟨1, fun _ => bracket_none hs hl⟩) hs
    | closed opener closer =>
      refine glanceOpener_sound (fun l ls hs hl => ⟨1, fun m => ?_⟩) hs
      change (bracket opener closer ts).map _ = none
      rw [bracket_none hs hl]
      rfl
    | angles =>
      refine glanceOpener_sound (fun l ls hs hl => ⟨1, fun m => ?_⟩) hs
      change run grammar (m + 1) .angles ts = none
      rw [run, marks_none [] hs hl]
    | missing => trivial
    | items _ _ => trivial
    | seq ps =>
      cases ps with
      | nil => exact ⟨[], ts, .nil, hs⟩
      | cons p ps =>
        exact (ih p hs).after Fails.cons fun a rest ls ha hrest =>
          (ih (.seq ps) hrest).imp (.behind ha) fun b rest' hb => ⟨_, ha.append hb⟩
    | alts ps =>
      cases ps with
      | nil => exact ⟨1, fun _ => rfl⟩
      | cons p ps =>
        refine (ih p hs).after (fun hp => ?_) fun a rest ls ha hrest => ⟨a, rest, ha.first, hrest⟩
        exact (ih (.alts ps) hs).imp (.next hp) fun a rest ha => ⟨a, .next hp ha⟩
    | star p =>
      refine (ih p hs).after (fun hp => ⟨[], ts, .star_nil hp, hs⟩) fun a rest ls ha hrest => ?_
      exact (ih (.star p) hrest).imp (.star ha) fun b rest' hb => ⟨_, .star_cons ha hb⟩
    | rule x => exact (ih (grammar x) hs).imp .rule fun a rest ha => ⟨a, ha.rule⟩
    | node kind p => exact (ih p hsplit).imp .node fun a rest ha => ⟨_, .node rfl ha⟩
    | shaped shape p =>
      refine (ih p hsplit).imp .shaped fun a rest ha => ?_
      cases hshape : shape a with
      | none => exact ⟨_, .shapeless rfl ha hshape⟩
      | some kind => exact ⟨_, .shaped rfl ha hshape⟩
    | role r p => exact (ih p hs).imp .role fun a rest ha => ⟨_, ha.role⟩
    | ahead p =>
      exact (ih p hs).after Fails.ahead fun a rest ls' ha hrest => ⟨[], ts, ha.ahead, hs⟩
    | without p =>
      exact (ih p hs).after (fun hp => ⟨[], ts, .without hp, hs⟩)
        fun a rest ls' ha hrest => Fails.without ha
    | grow base r tails =>
      refine (ih base hs).after Fails.grow fun a rest ls ha hrest => ?_
      split
      · rename_i hall
        refine ⟨a, rest, ha.grow (grows_nil fun t ht => ?_), hrest⟩
        exact Verdict.fails_of (ih t.2 hrest) (List.all_eq_true.mp hall t ht)
      · trivial

/-- A pattern that fails at a glance fails. -/
theorem fails_of_glance (hs : Sees ls ts) (h : (glance 100 p ls).isFails = true) :
    Fails grammar p ts :=
  Verdict.fails_of (glance_sound 100 p hs) h

/-- The text goes on with a token of one of the kinds. -/
def Ahead (looks : List Look) (ts : List Token) : Prop := ∃ l ∈ looks, Sees [l] ts

theorem ahead_cons {looks : List Look} (hl : l ∈ looks) (ht : l.Fits t) : Ahead looks (t :: ts) :=
  ⟨l, hl, sees_cons ht trivial⟩

theorem Ahead.mono {looks looks' : List Look} (h : Ahead looks ts)
    (hlooks : ∀ l ∈ looks, l ∈ looks') : Ahead looks' ts := by
  obtain ⟨l, hl, hs⟩ := h
  exact ⟨l, hlooks l hl, hs⟩

/-- The first token is of one of the kinds, with no comment in front. -/
def Begins (looks : List Look) (ts : List Token) : Prop :=
  ∃ t us, ts = t :: us ∧ ∃ l ∈ looks, l.Fits t

theorem Begins.append {looks : List Look} (h : Begins looks ts) (us : List Token) :
    Begins looks (ts ++ us) := by
  obtain ⟨t, ts, rfl, hl⟩ := h
  exact ⟨t, ts ++ us, rfl, hl⟩

theorem Begins.mono {looks looks' : List Look} (h : Begins looks ts)
    (hlooks : ∀ l ∈ looks, l ∈ looks') : Begins looks' ts := by
  obtain ⟨t, us, rfl, l, hl, ht⟩ := h
  exact ⟨t, us, rfl, l, hlooks l hl, ht⟩

theorem Begins.ahead {looks : List Look} (h : Begins looks ts) : Ahead looks ts := by
  obtain ⟨t, ts, rfl, l, hl, ht⟩ := h
  exact ahead_cons hl ht

theorem Begins.uncommented {looks : List Look} (h : Begins looks ts) : Uncommented ts := by
  obtain ⟨t, ts, rfl, l, -, ht⟩ := h
  exact splitComments_of_ne ht.ne_comment

theorem fails_of_ahead {looks : List Look} (h : Ahead looks ts)
    (hlooks : looks.all (fun l => (glance 100 p [l]).isFails) = true) : Fails grammar p ts := by
  obtain ⟨l, hl, hs⟩ := h
  exact fails_of_glance hs (List.all_eq_true.mp hlooks l hl)

/-- Tails of which none goes around what has been read. -/
theorem fails_tails_of_ahead {tails : List (Kind × P)} {looks : List Look} (h : Ahead looks ts)
    (htails : (tails.all fun t => looks.all fun l => (glance 100 t.2 [l]).isFails) = true) :
    ∀ t ∈ tails, Fails grammar t.2 ts :=
  fun t ht => fails_of_ahead h (List.all_eq_true.mp htails t ht)

/-- A pattern that takes something at a glance does so. -/
theorem takes_of_ahead {looks : List Look} (h : Ahead looks ts)
    (hlooks : looks.all (fun l => (glance 100 p [l]).isTakes) = true) :
    ∃ a rest, Takes grammar p ts a rest := by
  obtain ⟨l, hl, hs⟩ := h
  have hsound := glance_sound 100 p hs
  have htakes := List.all_eq_true.mp hlooks l hl
  cases hv : glance 100 p [l] with
  | takes ls =>
    rw [hv] at hsound
    obtain ⟨a, rest, ha, -⟩ := hsound
    exact ⟨a, rest, ha⟩
  | fails | unclear =>
    rw [hv] at htakes
    cases htakes

/-- The same where the first token is told, and the kinds that the next one has. -/
theorem fails_of_ahead₂ {looks : List Look} (ht : l.Fits t) (h : Ahead looks ts)
    (hlooks : looks.all (fun l' => (glance 100 p [l, l']).isFails) = true) :
    Fails grammar p (t :: ts) := by
  obtain ⟨l', hl', hs⟩ := h
  exact fails_of_glance (sees_cons ht hs) (List.all_eq_true.mp hlooks l' hl')

/-- A token that is taken at a look. -/
theorem takes_look {kind : Kind} {accepts : Token → Bool} (hp : p.token? = some (kind, accepts))
    (hl : l.Fits t) (h : l.accepts? p = some true) :
    Takes grammar p (t :: ts) [.leaf kind none t.lead t.text] ts :=
  Takes.token hp (splitComments_of_ne hl.ne_comment) (Look.accepts?_sound hp hl h)

variable {x : Rule} {ps : List P} {a : List Tree}

/-- The alternative of a rule that is taken, where those before it fail. -/
theorem takes_behind (n : Nat) (hx : grammar x = .alts ps) (hp : ps[n]? = some p)
    (hn : ∀ q ∈ ps.take n, Fails grammar q ts) (h : Takes grammar p ts a rest) :
    Takes grammar (.rule x) ts a rest := by
  obtain ⟨hlt, rfl⟩ := List.getElem?_eq_some_iff.mp hp
  refine .rule ?_
  rw [hx, ← List.take_append_drop n ps, List.drop_eq_getElem_cons hlt]
  exact .pass hn h.first

/-- The same where the first of them fail at a glance. -/
theorem takes_between (m n : Nat) (hx : grammar x = .alts ps) (hp : ps[n]? = some p)
    {looks : List Look} (hs : Ahead looks ts)
    (hm : ((ps.take m).all fun q => looks.all fun l => (glance 100 q [l]).isFails) = true)
    (hn : ∀ q ∈ (ps.take n).drop m, Fails grammar q ts) (h : Takes grammar p ts a rest) :
    Takes grammar (.rule x) ts a rest := by
  refine takes_behind n hx hp (fun q hq => ?_) h
  rw [← List.take_append_drop m (ps.take n), List.mem_append, List.take_take] at hq
  rcases hq with hq | hq
  · have hfirst : q ∈ ps.take m := List.take_subset_take_left ps (Nat.min_le_left m n) hq
    exact fails_of_ahead hs (List.all_eq_true.mp hm q hfirst)
  · exact hn q hq

/-- **The alternative of a rule that is taken**, where those before it fail at a glance. -/
theorem takes_alternative (n : Nat) (hx : grammar x = .alts ps) (hp : ps[n]? = some p)
    (hs : Sees ls ts) (hn : (ps.take n).all (fun q => (glance 100 q ls).isFails) = true)
    (h : Takes grammar p ts a rest) : Takes grammar (.rule x) ts a rest :=
  takes_behind n hx hp (fun q hq => fails_of_glance hs (List.all_eq_true.mp hn q hq)) h

/-- The same where the first token is told, and the kinds that the next one has. -/
theorem takes_alternative₂ (n : Nat) (hx : grammar x = .alts ps) (hp : ps[n]? = some p)
    {looks : List Look} (ht : l.Fits t) (hs : Ahead looks ts)
    (hn : looks.all (fun l' => (ps.take n).all fun q => (glance 100 q [l, l']).isFails) = true)
    (h : Takes grammar p (t :: ts) a rest) : Takes grammar (.rule x) (t :: ts) a rest := by
  obtain ⟨l', hl', hs⟩ := hs
  exact takes_alternative n hx hp (sees_cons ht hs) (List.all_eq_true.mp hn l' hl') h

end Scaffold.Cpp
