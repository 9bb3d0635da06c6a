import Mathlib.Data.List.Basic
import Scaffold.Artifact.Layout
import Scaffold.Proofs.Text.Identifiers
import Scaffold.Proofs.Text.Lines

/-!
# Reading generated files

A generated file is read line by line.

* `printed` -- the lines of a text; `between?` -- what stands between two pieces of a
  line;
* `enclosed` -- every line with the namespaces around it, and no answer when one is closed
  that is not the innermost open one, or is left open;
* `blocks` -- the lines in braces, each block with the line in front of it;
* `enclosed_text` -- **the lines of a class stand in its own namespaces** and all others in
  none, as long as none of them opens or closes a namespace itself.
-/
namespace Scaffold.Artifact

open Text (isIdentifier)

/-! ## 1. Lines -/

/-- The lines of a text. -/
def printed (text : String) : List String := (Text.lines text.toList).map String.ofList

theorem printed_unlines {ls : List String}
    (h : ∀ l ∈ ls, '\n' ∉ l.toList ∧ l.toList.getLast? ≠ some '\r') :
    printed (Text.unlines ls) = ls := by
  rw [printed, Text.lines_unlines h, List.map_map]
  exact List.map_id'' (fun l => String.ofList_toList) ls

/-- What stands between two pieces at the ends of a line. -/
def between? (front back line : String) : Option String := do
  let rest ← line.toList.dropPrefix? front.toList
  let inner ← rest.dropSuffix? back.toList
  return String.ofList inner

theorem between?_eq_some {front back line inner : String} :
    between? front back line = some inner ↔ line = front ++ inner ++ back := by
  simp only [between?, Option.bind_eq_bind, Option.bind_eq_some_iff, Option.pure_def,
    Option.some.injEq, List.dropPrefix?_eq_some_iff, List.dropSuffix?_eq_some_iff, beq_iff_eq]
  rw [← String.toList_inj, String.toList_append, String.toList_append]
  constructor
  · rintro ⟨_, ⟨_, hline, rfl⟩, _, ⟨_, rfl, rfl⟩, rfl⟩
    rw [hline, String.toList_ofList, List.append_assoc]
  · intro hline
    exact ⟨_, ⟨_, by rw [hline, List.append_assoc], rfl⟩, _, ⟨_, rfl, rfl⟩, String.ofList_toList⟩

theorem between?_append (front inner back : String) :
    between? front back (front ++ inner ++ back) = some inner :=
  between?_eq_some.mpr rfl

/-- A line that begins otherwise has nothing behind the piece. -/
theorem between?_of_head {front back line : String} (hfront : front.toList ≠ [])
    (h : line.toList.head? ≠ front.toList.head?) : between? front back line = none := by
  refine Option.eq_none_iff_forall_ne_some.mpr fun inner hinner => h ?_
  rw [between?_eq_some.mp hinner, String.toList_append, String.toList_append, List.append_assoc,
    List.head?_append_of_ne_nil _ hfront]

/-- A line that ends otherwise has nothing in front of the piece. -/
theorem between?_of_getLast {front back line : String} (hback : back.toList ≠ [])
    (h : line.toList.getLast? ≠ back.toList.getLast?) : between? front back line = none := by
  refine Option.eq_none_iff_forall_ne_some.mpr fun inner hinner => h ?_
  rw [between?_eq_some.mp hinner, String.toList_append, List.getLast?_append_of_ne_nil _ hback]

/-- A line begins like its first part, if there is anything in that. -/
theorem head?_append {front : String} (h : front.toList ≠ []) (back : String) :
    (front ++ back).toList.head? = front.toList.head? := by
  rw [String.toList_append, List.head?_append_of_ne_nil _ h]

/-- A line ends like its last part, if there is anything in that. -/
theorem getLast?_append {back : String} (h : back.toList ≠ []) (front : String) :
    (front ++ back).toList.getLast? = back.toList.getLast? := by
  rw [String.toList_append, List.getLast?_append_of_ne_nil _ h]

theorem head?_ne {front back : String} {c : Char}
    (h : front.toList ≠ [] ∧ front.toList.head? ≠ some c) : (front ++ back).toList.head? ≠ some c := by
  rw [head?_append h.1]
  exact h.2

/-- Lines that begin otherwise are others. -/
theorem ne_of_begin {front back other : String}
    (h : front.toList ≠ [] ∧ other.toList.head? ≠ front.toList.head?) : front ++ back ≠ other := by
  rintro rfl
  exact h.2 (head?_append h.1 back)

/-! ## 2. Namespaces -/

/-- The namespace that a line opens. -/
def opened? (line : String) : Option String :=
  (between? "namespace " " \x7b" line).filter fun n => isIdentifier n.toList

/-- The namespace that a line closes. -/
def closed? (line : String) : Option String :=
  (between? "\x7d  // namespace " "" line).filter fun n => isIdentifier n.toList

/-- The lines of a file, from a place inside the given namespaces, innermost first. -/
def enclosedFrom (around : List String) : List String → Option (List (List String × String))
  | [] => if around.isEmpty then some [] else none
  | l :: ls =>
    match opened? l, closed? l, around with
    | some n, _, _ => enclosedFrom (n :: around) ls
    | none, some n, m :: outer => if m = n then enclosedFrom outer ls else none
    | none, some _, [] => none
    | none, none, _ => (enclosedFrom around ls).map ((around.reverse, l) :: ·)

/-- The lines of a text other than those that open and close namespaces, each with the
namespaces around it, outermost first. Every namespace is closed, an inner one before the
outer ones. -/
def enclosed (text : String) : Option (List (List String × String)) := enclosedFrom [] (printed text)

theorem opened?_open {n : String} (h : isIdentifier n.toList = true) :
    opened? ("namespace " ++ n ++ " \x7b") = some n := by
  rw [opened?, between?_append]
  exact Option.filter_some_pos h

theorem opened?_close (n : String) : opened? ("\x7d  // namespace " ++ n) = none := by
  rw [opened?, between?_of_head (by decide)]
  · rfl
  · rw [head?_append (by decide)]
    decide

theorem closed?_close {n : String} (h : isIdentifier n.toList = true) :
    closed? ("\x7d  // namespace " ++ n) = some n := by
  have hread := between?_append "\x7d  // namespace " n ""
  rw [String.append_empty] at hread
  rw [closed?, hread]
  exact Option.filter_some_pos h

/-- A line of its own right: it neither opens nor closes a namespace, and it is read as it
is printed. -/
structure Inner (l : String) : Prop where
  unbroken : '\n' ∉ l.toList
  kept : l.toList.getLast? ≠ some '\r'
  opens : opened? l = none
  closes : closed? l = none

/-- A beginning that tells a line from those that open and close namespaces. -/
def Begins (front : String) : Prop :=
  front.toList ≠ [] ∧ front.toList.head? ≠ some 'n' ∧ front.toList.head? ≠ some '\x7d' ∧
    '\n' ∉ front.toList

instance (front : String) : Decidable (Begins front) :=
  inferInstanceAs (Decidable (_ ∧ _ ∧ _ ∧ _))

/-- An end that stays with its line. -/
def Stops (back : String) : Prop :=
  '\n' ∉ back.toList ∧ back.toList ≠ [] ∧ back.toList.getLast? ≠ some '\r'

instance (back : String) : Decidable (Stops back) := inferInstanceAs (Decidable (_ ∧ _ ∧ _))

/-- An end stays one whatever stands in front. -/
theorem Stops.append {front back : String} (h : Stops back) (hfront : '\n' ∉ front.toList) :
    Stops (front ++ back) := by
  obtain ⟨hlf, hne, hlast⟩ := h
  refine ⟨?_, ?_, ?_⟩
  · rw [String.toList_append, List.mem_append]
    exact not_or.mpr ⟨hfront, hlf⟩
  · rw [String.toList_append]
    exact List.append_ne_nil_of_right_ne_nil _ hne
  · rwa [getLast?_append hne]

/-- A line is known by its beginning. -/
theorem inner_of_begins {front back : String} (hfront : Begins front) (hback : Stops back) :
    Inner (front ++ back) := by
  obtain ⟨hne, hopen, hclose, hlf⟩ := hfront
  have hhead := head?_append hne back
  refine ⟨?_, ?_, ?_, ?_⟩
  · rw [String.toList_append, List.mem_append]
    exact not_or.mpr ⟨hlf, hback.1⟩
  · rw [getLast?_append hback.2.1]
    exact hback.2.2
  · rw [opened?, between?_of_head (by decide)]
    · rfl
    · rw [hhead]
      exact hopen
  · rw [closed?, between?_of_head (by decide)]
    · rfl
    · rw [hhead]
      exact hclose

/-- The same where something is put in between. -/
theorem inner_around {front middle back : String} (hfront : Begins front)
    (hmiddle : '\n' ∉ middle.toList) (hback : Stops back) : Inner (front ++ middle ++ back) := by
  refine inner_of_begins ⟨?_, ?_, ?_, ?_⟩ hback
  · rw [String.toList_append]
    exact List.append_ne_nil_of_left_ne_nil hfront.1 _
  · exact head?_ne ⟨hfront.1, hfront.2.1⟩
  · exact head?_ne ⟨hfront.1, hfront.2.2.1⟩
  · rw [String.toList_append, List.mem_append]
    exact not_or.mpr ⟨hfront.2.2.2, hmiddle⟩

/-- An identifier may end a line. -/
theorem stops_identifier {n : String} (h : isIdentifier n.toList = true) : Stops n := by
  have hlf := Text.notMem_of_isIdentifier h (c := '\n') (by decide)
  have hcr := Text.notMem_of_isIdentifier h (c := '\r') (by decide)
  exact ⟨hlf, Text.ne_nil_of_isIdentifier h, fun hlast => hcr (List.mem_of_getLast? hlast)⟩

/-- A line with a parenthesis in it that does not end in a brace. -/
theorem inner_of_parenthesis {front back : String} (hfront : '\n' ∉ front.toList)
    (hback : Stops back) (hparen : '(' ∈ (front ++ back).toList)
    (hbrace : back.toList.getLast? ≠ some '\x7b') : Inner (front ++ back) := by
  have hlast := getLast?_append hback.2.1 front
  refine ⟨?_, ?_, ?_, ?_⟩
  · rw [String.toList_append, List.mem_append]
    exact not_or.mpr ⟨hfront, hback.1⟩
  · rw [hlast]
    exact hback.2.2
  · rw [opened?, between?_of_getLast (by decide)]
    · rfl
    · rw [hlast]
      exact hbrace
  · refine Option.eq_none_iff_forall_ne_some.mpr fun n hn => ?_
    obtain ⟨hn, hname⟩ := Option.filter_eq_some_iff.mp hn
    rw [between?_eq_some.mp hn, String.append_empty, String.toList_append] at hparen
    rcases List.mem_append.mp hparen with hmem | hmem
    · exact absurd hmem (by decide)
    · exact Text.notMem_of_isIdentifier hname (by decide) hmem

theorem inner_empty : Inner "" := ⟨by decide, by decide, by decide, by decide⟩

theorem inner_brace : Inner "\x7b" := ⟨by decide, by decide, by decide, by decide⟩

variable {around : List String} {ls rest : List String}

/-- A line of its own right is found where it stands. -/
theorem enclosedFrom_cons {l : String} (h : Inner l) :
    enclosedFrom around (l :: ls) = (enclosedFrom around ls).map ((around.reverse, l) :: ·) := by
  simp only [enclosedFrom, h.opens, h.closes]

theorem enclosedFrom_append (h : ∀ l ∈ ls, Inner l) :
    enclosedFrom around (ls ++ rest) =
      (enclosedFrom around rest).map (ls.map (around.reverse, ·) ++ ·) := by
  induction ls with
  | nil => simp
  | cons l ls ih =>
    rw [List.cons_append, enclosedFrom_cons (h l List.mem_cons_self),
      ih fun l' hl' => h l' (List.mem_cons_of_mem l hl'), Option.map_map]
    rfl

theorem enclosedFrom_opening {ns : List String} (h : ∀ n ∈ ns, isIdentifier n.toList = true) :
    enclosedFrom around (ns.map (fun n => "namespace " ++ n ++ " \x7b") ++ rest) =
      enclosedFrom (ns.reverse ++ around) rest := by
  induction ns generalizing around with
  | nil => rfl
  | cons n ns ih =>
    rw [List.map_cons, List.cons_append]
    simp only [enclosedFrom, opened?_open (h n List.mem_cons_self)]
    rw [ih fun n' hn' => h n' (List.mem_cons_of_mem n hn'), List.reverse_cons, List.append_assoc]
    rfl

theorem enclosedFrom_closing {ns : List String} (h : ∀ n ∈ ns, isIdentifier n.toList = true) :
    enclosedFrom (ns ++ around) (ns.map (fun n => "\x7d  // namespace " ++ n) ++ rest) =
      enclosedFrom around rest := by
  induction ns with
  | nil => rfl
  | cons n ns ih =>
    rw [List.map_cons, List.cons_append, List.cons_append]
    simp only [enclosedFrom, opened?_close, closed?_close (h n List.mem_cons_self), ↓reduceIte]
    exact ih fun n' hn' => h n' (List.mem_cons_of_mem n hn')

/-! ## 3. Classes -/

/-- Lines inside the namespaces of a class, with the empty lines that stand there. -/
def padded (c : ClassDecl) (body : List String) : List (List String × String) :=
  (if c.namespaces.isEmpty then body else "" :: body ++ [""]).map (c.namespaces, ·)


theorem enclosedFrom_insideNamespaces {c : ClassDecl} {body : List String}
    (hc : ∀ n ∈ c.namespaces, isIdentifier n.toList = true) (h : ∀ l ∈ body, Inner l) :
    enclosedFrom [] (insideNamespaces c body ++ rest) =
      (enclosedFrom [] rest).map (padded c body ++ ·) := by
  by_cases hempty : c.namespaces.isEmpty = true
  · rw [insideNamespaces, padded, if_pos hempty, if_pos hempty, enclosedFrom_append h,
      List.isEmpty_iff.mp hempty]
    rfl
  · have hinner : ∀ l ∈ "" :: body ++ [""], Inner l := by
      intro l hl
      rw [List.mem_append, List.mem_cons, List.mem_singleton] at hl
      rcases hl with (rfl | hl) | rfl
      · exact inner_empty
      · exact h l hl
      · exact inner_empty
    have hlines : insideNamespaces c body ++ rest =
        c.namespaces.map (fun n => "namespace " ++ n ++ " \x7b") ++ (("" :: body ++ [""]) ++
          (c.namespaces.reverse.map (fun n => "\x7d  // namespace " ++ n) ++ rest)) := by
      rw [insideNamespaces, if_neg hempty]
      simp only [List.append_assoc, List.cons_append, List.nil_append]
    have hclose : enclosedFrom c.namespaces.reverse
        (c.namespaces.reverse.map (fun n => "\x7d  // namespace " ++ n) ++ rest) =
          enclosedFrom [] rest := by
      have hreverse : ∀ n ∈ c.namespaces.reverse, isIdentifier n.toList = true :=
        fun n hn => hc n (List.mem_reverse.mp hn)
      have hclosing := @enclosedFrom_closing [] rest _ hreverse
      rwa [List.append_nil] at hclosing
    rw [hlines, enclosedFrom_opening hc, List.append_nil, enclosedFrom_append hinner, hclose,
      List.reverse_reverse, padded, if_neg hempty]

/-- A line in the namespaces of a class is one of the body, an empty one, or opens or closes
one of the namespaces. -/
theorem mem_insideNamespaces {c : ClassDecl} {body : List String} {l : String}
    (h : l ∈ insideNamespaces c body) : l ∈ body ∨ l = "" ∨
      ∃ n ∈ c.namespaces, l = "namespace " ++ n ++ " \x7b" ∨ l = "\x7d  // namespace " ++ n := by
  unfold insideNamespaces at h
  split at h
  · exact .inl h
  · simp only [List.mem_append, List.mem_cons, List.mem_map, List.mem_reverse] at h
    rcases h with (⟨n, hn, rfl⟩ | rfl | h) | rfl | ⟨n, hn, rfl⟩
    · exact .inr (.inr ⟨n, hn, .inl rfl⟩)
    · exact .inr (.inl rfl)
    · exact .inl h
    · exact .inr (.inl rfl)
    · exact .inr (.inr ⟨n, hn, .inr rfl⟩)

/-- Such a line is read as it is printed. -/
theorem unbroken_insideNamespaces {c : ClassDecl} {body : List String}
    (hc : ∀ n ∈ c.namespaces, isIdentifier n.toList = true) (hbody : ∀ l ∈ body, Inner l) :
    ∀ l ∈ insideNamespaces c body, '\n' ∉ l.toList ∧ l.toList.getLast? ≠ some '\r' := by
  intro l hl
  rcases mem_insideNamespaces hl with hl | rfl | ⟨n, hn, rfl | rfl⟩
  · exact ⟨(hbody l hl).unbroken, (hbody l hl).kept⟩
  · exact ⟨inner_empty.unbroken, inner_empty.kept⟩
  · have hlf := Text.notMem_of_isIdentifier (hc n hn) (c := '\n') (by decide)
    rw [String.toList_append, String.toList_append, List.getLast?_append_of_ne_nil _ (by decide),
      List.mem_append, List.mem_append, not_or, not_or]
    exact ⟨⟨⟨by decide, hlf⟩, by decide⟩, by decide⟩
  · have hlf := Text.notMem_of_isIdentifier (hc n hn) (c := '\n') (by decide)
    have hcr := Text.notMem_of_isIdentifier (hc n hn) (c := '\r') (by decide)
    rw [String.toList_append,
      List.getLast?_append_of_ne_nil _ (Text.ne_nil_of_isIdentifier (hc n hn)), List.mem_append,
      not_or]
    exact ⟨⟨by decide, hlf⟩, fun h => hcr (List.mem_of_getLast? h)⟩

/-- The lines of the classes, each class after an empty line. -/
def classScopes (cs : List ClassDecl) (body : ClassDecl → List String) :
    List (List String × String) :=
  cs.flatMap fun c => ([], "") :: padded c (body c)

theorem enclosedFrom_classes {cs : List ClassDecl} {body : ClassDecl → List String}
    (hnames : ∀ c ∈ cs, ∀ n ∈ c.namespaces, isIdentifier n.toList = true)
    (hbody : ∀ c ∈ cs, ∀ l ∈ body c, Inner l) :
    enclosedFrom [] (cs.flatMap fun c => "" :: insideNamespaces c (body c)) =
      some (classScopes cs body) := by
  induction cs with
  | nil => rfl
  | cons c cs ih =>
    have hcs := ih (fun c' hc' => hnames c' (List.mem_cons_of_mem c hc'))
      fun c' hc' => hbody c' (List.mem_cons_of_mem c hc')
    rw [List.flatMap_cons, List.cons_append, enclosedFrom_cons inner_empty,
      enclosedFrom_insideNamespaces (hnames c List.mem_cons_self) (hbody c List.mem_cons_self), hcs]
    rfl

variable {h : Header} {above : List String} {body : ClassDecl → List String}

/-- The lines of a text are those that it is made from. -/
theorem printed_text
    (hnames : ∀ c ∈ h.topLevel, ∀ n ∈ c.namespaces, isIdentifier n.toList = true)
    (habove : ∀ l ∈ above, Inner l) (hbody : ∀ c ∈ h.topLevel, ∀ l ∈ body c, Inner l) :
    printed (Text.unlines (above ++ classBlocks h body)) = above ++ classBlocks h body := by
  refine printed_unlines fun l hl => ?_
  rcases List.mem_append.mp hl with hl | hl
  · exact ⟨(habove l hl).unbroken, (habove l hl).kept⟩
  · obtain ⟨c, hc, hl⟩ := List.mem_flatMap.mp hl
    rcases List.mem_cons.mp hl with rfl | hl
    · exact ⟨inner_empty.unbroken, inner_empty.kept⟩
    · exact unbroken_insideNamespaces (hnames c hc) (hbody c hc) l hl

/-- **The lines of a class stand in its own namespaces**, and what stands above the classes
in none. -/
theorem enclosed_text
    (hnames : ∀ c ∈ h.topLevel, ∀ n ∈ c.namespaces, isIdentifier n.toList = true)
    (habove : ∀ l ∈ above, Inner l) (hbody : ∀ c ∈ h.topLevel, ∀ l ∈ body c, Inner l) :
    enclosed (Text.unlines (above ++ classBlocks h body)) =
      some (above.map ([], ·) ++ classScopes h.topLevel body) := by
  rw [enclosed, printed_text hnames habove hbody, enclosedFrom_append habove, classBlocks,
    enclosedFrom_classes hnames hbody]
  rfl

/-! ## 4. Blocks -/

/-- Lines in braces, with the line in front of them and the namespaces they stand in. -/
structure Block where
  namespaces : List String
  head : String
  body : List String
  deriving DecidableEq, Repr

/-- The block that begins behind a line; it ends with the given line, in the same
namespaces. -/
def block? (close : String) (ns : List String) (head : String) :
    List (List String × String) → Option Block
  | (_, brace) :: ls =>
    if brace = "\x7b" then
      some ⟨ns, head, (ls.takeWhile fun l => l.1 == ns && l.2 != close).map Prod.snd⟩
    else none
  | [] => none

/-- The blocks of a file, in order. -/
def blocks (close : String) : List (List String × String) → List Block
  | [] => []
  | (ns, head) :: ls => (block? close ns head ls).toList ++ blocks close ls

/-- The first of the lines, if there is one, is no opening brace. -/
def Unbraced (ls : List (List String × String)) : Prop := ∀ l ∈ ls.head?, l.2 ≠ "\x7b"

/-- The lines hold the given blocks, whatever follows them. -/
structure HoldsBlocks (close : String) (ls : List (List String × String)) (bs : List Block) :
    Prop where
  unbraced : Unbraced ls
  reads : ∀ tail, Unbraced tail → blocks close (ls ++ tail) = bs ++ blocks close tail

variable {close : String} {ns : List String} {as bs : List Block}
  {more tail : List (List String × String)}

theorem unbraced_append (h : Unbraced more) (htail : Unbraced tail) : Unbraced (more ++ tail) := by
  cases more with
  | nil => exact htail
  | cons l more => exact h

/-- Where no brace comes next, no block begins. -/
theorem blocks_cons {l : List String × String} (h : Unbraced tail) :
    blocks close (l :: tail) = blocks close tail := by
  rw [blocks]
  cases tail with
  | nil => rfl
  | cons b tail =>
    rw [block?, if_neg (h b rfl)]
    rfl

theorem HoldsBlocks.append (h : HoldsBlocks close more as) (h' : HoldsBlocks close tail bs) :
    HoldsBlocks close (more ++ tail) (as ++ bs) := by
  refine ⟨unbraced_append h.unbraced h'.unbraced, fun rest hrest => ?_⟩
  rw [List.append_assoc, h.reads _ (unbraced_append h'.unbraced hrest), h'.reads _ hrest,
    List.append_assoc]

/-- Lines without braces of their own hold no blocks. -/
theorem holdsBlocks_nil (h : ∀ l ∈ more, l.2 ≠ "\x7b") : HoldsBlocks close more [] := by
  induction more with
  | nil => exact ⟨fun _ hl => (nomatch hl), fun _ _ => rfl⟩
  | cons l more ih =>
    have hmore := ih fun l' hl' => h l' (List.mem_cons_of_mem l hl')
    have hl : Unbraced (l :: more) := fun l' hl' => by
      cases hl'
      exact h l List.mem_cons_self
    refine ⟨hl, fun tail htail => ?_⟩
    rw [List.cons_append, blocks_cons (unbraced_append hmore.unbraced htail)]
    exact hmore.reads tail htail

theorem holdsBlocks_empty : HoldsBlocks close [(ns, "")] [] := by
  refine holdsBlocks_nil fun l hl => ?_
  rw [List.mem_singleton.mp hl]
  exact (by decide : "" ≠ "\x7b")

theorem HoldsBlocks.flatMap {α : Type} {xs : List α} {f : α → List (List String × String)}
    {g : α → List Block} (h : ∀ x ∈ xs, HoldsBlocks close (f x) (g x)) :
    HoldsBlocks close (xs.flatMap f) (xs.flatMap g) := by
  induction xs with
  | nil => exact holdsBlocks_nil fun _ hl => nomatch hl
  | cons x xs ih =>
    rw [List.flatMap_cons, List.flatMap_cons]
    exact (h x List.mem_cons_self).append (ih fun y hy => h y (List.mem_cons_of_mem x hy))

/-- **A block that is written is read back.** -/
theorem holdsBlocks_block {head : String} {body : List String} (hhead : head ≠ "\x7b")
    (hclose : close ≠ "\x7b") (hbody : ∀ l ∈ body, l ≠ "\x7b" ∧ l ≠ close) :
    HoldsBlocks close ((head :: "\x7b" :: body ++ [close]).map (ns, ·)) [⟨ns, head, body⟩] := by
  have hinside : HoldsBlocks close ((body ++ [close]).map (ns, ·)) [] := by
    refine holdsBlocks_nil fun l hl => ?_
    obtain ⟨b, hb, rfl⟩ := List.mem_map.mp hl
    rcases List.mem_append.mp hb with hb | hb
    · exact (hbody b hb).1
    · exact List.mem_singleton.mp hb ▸ hclose
  refine ⟨fun l hl => by cases hl; exact hhead, fun tail htail => ?_⟩
  have htake : (((body ++ [close]).map (ns, ·) ++ tail).takeWhile
      fun l => l.1 == ns && l.2 != close) = body.map (ns, ·) := by
    rw [List.map_append, List.append_assoc, List.takeWhile_append_of_pos, List.map_singleton,
      List.singleton_append, List.takeWhile_cons_of_neg (by simp), List.append_nil]
    intro l hl
    obtain ⟨b, hb, rfl⟩ := List.mem_map.mp hl
    simpa using (hbody b hb).2
  have hbodies : (body.map (ns, ·)).map Prod.snd = body := by
    rw [List.map_map]
    exact List.map_id body
  rw [List.cons_append, List.cons_append, List.map_cons, List.map_cons, List.cons_append,
    List.cons_append, blocks, blocks_cons (unbraced_append hinside.unbraced htail),
    hinside.reads tail htail, block?, if_pos rfl, htake, hbodies]
  rfl

/-- The empty lines at the ends of a namespace hold no blocks. -/
theorem HoldsBlocks.padded {c : ClassDecl} {body : List String}
    (h : HoldsBlocks close (body.map (c.namespaces, ·)) bs) :
    HoldsBlocks close (padded c body) bs := by
  unfold Artifact.padded
  split
  · exact h
  · have hempty : HoldsBlocks close [(c.namespaces, "")] [] := holdsBlocks_empty
    have hall := hempty.append (h.append hempty)
    rw [List.append_nil, List.nil_append] at hall
    rw [List.cons_append, List.map_cons, List.map_append]
    exact hall

/-- The blocks of the classes are the blocks of a file. -/
theorem blocks_classes {cs : List ClassDecl} {found : ClassDecl → List Block}
    (habove : ∀ l ∈ above, l ≠ "\x7b")
    (h : ∀ c ∈ cs, HoldsBlocks close ((body c).map (c.namespaces, ·)) (found c)) :
    blocks close (above.map ([], ·) ++ classScopes cs body) = cs.flatMap found := by
  have hclasses : HoldsBlocks close (classScopes cs body) (cs.flatMap found) :=
    HoldsBlocks.flatMap fun c hc => holdsBlocks_empty.append (h c hc).padded
  have hall : HoldsBlocks close (above.map ([], ·) ++ classScopes cs body)
      ([] ++ cs.flatMap found) := by
    refine HoldsBlocks.append (holdsBlocks_nil fun l hl => ?_) hclasses
    obtain ⟨b, hb, rfl⟩ := List.mem_map.mp hl
    exact habove b hb
  have hread := hall.reads [] fun _ hl => nomatch hl
  rwa [List.append_nil, blocks, List.append_nil] at hread

/-- Classes that are one block each. -/
theorem blocks_braced {cs : List ClassDecl} {front : ClassDecl → String}
    {inside : ClassDecl → List String} (habove : ∀ l ∈ above, l ≠ "\x7b")
    (hclose : close ≠ "\x7b") (hfront : ∀ c ∈ cs, front c ≠ "\x7b")
    (hinside : ∀ c ∈ cs, ∀ l ∈ inside c, l ≠ "\x7b" ∧ l ≠ close) :
    blocks close (above.map ([], ·) ++
        classScopes cs fun c => front c :: "\x7b" :: inside c ++ [close]) =
      cs.map fun c => ⟨c.namespaces, front c, inside c⟩ := by
  rw [blocks_classes habove fun c hc => holdsBlocks_block (hfront c hc) hclose (hinside c hc),
    List.map_eq_flatMap]

/-! ## 5. Items -/

/-- What single lines of a file say, each with the namespaces it stands in. -/
def itemsIn {α : Type} (item? : String → Option α) (ls : List (List String × String)) :
    List (List String × α) :=
  ls.filterMap fun l => (item? l.2).map (l.1, ·)

variable {α : Type} {item? : String → Option α}

theorem itemsIn_append : itemsIn item? (more ++ tail) = itemsIn item? more ++ itemsIn item? tail :=
  List.filterMap_append

theorem itemsIn_map (ls : List String) :
    itemsIn item? (ls.map (ns, ·)) = (ls.filterMap item?).map (ns, ·) := by
  rw [itemsIn, List.filterMap_map, List.map_filterMap]
  rfl

theorem itemsIn_padded (hempty : item? "" = none) (c : ClassDecl) (body : List String) :
    itemsIn item? (padded c body) = (body.filterMap item?).map (c.namespaces, ·) := by
  rw [padded, itemsIn_map]
  split
  · rfl
  · rw [List.cons_append, List.filterMap_cons_none hempty, List.filterMap_append,
      List.filterMap_cons_none hempty, List.filterMap_nil, List.append_nil]

/-- The items of the classes are the items of a file. -/
theorem itemsIn_classes {cs : List ClassDecl} (hempty : item? "" = none)
    (habove : ∀ l ∈ above, item? l = none) :
    itemsIn item? (above.map ([], ·) ++ classScopes cs body) =
      cs.flatMap fun c => ((body c).filterMap item?).map (c.namespaces, ·) := by
  have hnone : above.filterMap item? = [] := List.filterMap_eq_nil_iff.mpr habove
  rw [itemsIn_append, itemsIn_map, hnone, List.map_nil, List.nil_append]
  induction cs with
  | nil => rfl
  | cons c cs ih =>
    have hcons : classScopes (c :: cs) body =
        [([], "")] ++ (padded c (body c) ++ classScopes cs body) := rfl
    have hline : itemsIn item? [([], "")] = [] := by
      rw [itemsIn, List.filterMap_cons_none (by rw [hempty]; rfl), List.filterMap_nil]
    rw [hcons, itemsIn_append, itemsIn_append, hline, itemsIn_padded hempty, ih, List.nil_append,
      List.flatMap_cons]

/-- What a block says, it says inside its braces. -/
theorem filterMap_braced {front : String} {inside : List String} (hfront : item? front = none)
    (hbraces : item? "\x7b" = none ∧ item? close = none) :
    (front :: "\x7b" :: inside ++ [close]).filterMap item? = inside.filterMap item? := by
  rw [List.cons_append, List.cons_append, List.filterMap_cons_none hfront,
    List.filterMap_cons_none hbraces.1, List.filterMap_append,
    List.filterMap_cons_none hbraces.2, List.filterMap_nil, List.append_nil]

/-- Each of the lines that are made from a list is one item. -/
theorem filterMap_items {β : Type} {xs : List β} {line : β → String} {item : β → α}
    (h : ∀ x ∈ xs, item? (line x) = some (item x)) :
    (xs.map line).filterMap item? = xs.map item := by
  rw [List.filterMap_map]
  exact List.filterMap_eq_map_iff_forall_eq_some.mpr h

end Scaffold.Artifact
