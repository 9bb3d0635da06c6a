import Scaffold.Proofs.Cpp.ClassTexts
import Scaffold.Proofs.Cpp.Frames

/-!
# Classes in their namespaces

The header of an interface opens the namespaces of a class one inside the other, and closes
each with a comment.

* `blockTokens` -- a class in its namespaces, without the comment at the end;
* `takes_block` -- **it is read as an item**, in which the walk finds the class in its
  namespaces, and nothing else.
-/
namespace Scaffold.Cpp

open Grammar
open Pattern

variable {ts us rest : List Token} {t u : Token} {a b : List Tree} {lead w n : List Char} {k : Kind}
  {ns : List (List Char)} {Ms : List MethodText}

/-! ## 1. A namespace -/

/-- A namespace up to its name. -/
def spaceTokens (lead n : List Char) : List Token :=
  [wordToken lead "namespace".toList, wordToken [' '] n]

/-- The tree of a namespace. -/
def spaceTree (lead n : List Char) (a : List Tree) : Tree :=
  .node .namespaceDefinition none [(wordToken lead "namespace".toList).leaf .token,
    ((wordToken [' '] n).leaf .namespaceIdentifier).withRole .name,
    (Tree.node .declarationList none a).withRole .body]

/-- **A namespace is read as an item**, also behind comments. -/
theorem takes_namespace (hn : IsName n) (lead : List Char) {lead' : List Char}
    (hbody : Takes grammar (.rule .braces) (markToken lead' '{' :: us)
      [.node .declarationList none a]
      rest) {before : List Tree}
    (hts : splitComments ts = (before, spaceTokens lead n ++ markToken lead' '{' :: us)) :
    Takes grammar (.rule .item) ts (before ++ [spaceTree lead n a]) rest := by
  have hword : (Look.word ["namespace"]).Fits (wordToken lead "namespace".toList) := ⟨rfl, by simp⟩
  have hname := hn.fits [' ']
  have hbrace : Sees [.mark '{'] (markToken lead' '{' :: us) := sees_mark
  have hsees : Sees [.word ["namespace"], .name, .mark '{'] ts :=
    sees_behind hts (splitComments_of_ne hword.ne_comment)
      (sees_cons hword (sees_cons hname hbrace))
  have hnamed : Takes grammar (.rule .namespaceName)
      (wordToken [' '] n :: markToken lead' '{' :: us)
      [(wordToken [' '] n).leaf .namespaceIdentifier] (markToken lead' '{' :: us) := by
    refine .rule (.shapeless_front (splitComments_of_ne hname.ne_comment)
      (.skip (.next ?_ (.first .nil)) (.cons (takes_look rfl hname (by decide))
        (.last (.star_nil ?_)))) rfl)
    · exact fails_of_glance (sees_one hname) (by decide)
    · exact fails_of_glance hbrace (by decide)
  have hinside : Takes grammar (.rule .namespaceBody) (markToken lead' '{' :: us)
      [.node .declarationList none a] rest := .rule hbody
  refine takes_alternative 4 rfl rfl hsees (by decide) (.node hts (.skip (.next ?_ (.first .nil))
    (.cons (takes_look rfl hword (by decide)) (.skip (.next ?_ (.first .nil))
      (.cons (.first hnamed.role) hinside.role.last)))))
  · exact fails_of_glance (sees_one hword) (by decide)
  · exact fails_of_glance (sees_one hname) (by decide)

/-- **In a namespace the walk finds** what it finds in its body. -/
theorem visit_spaceTree (lead n : List Char) (a : List Tree) (scope : Tree.Scope) (parent : Kind) :
    ((spaceTree lead n a).visit scope parent).classes =
      (Tree.visitAll ⟨scope.namespaces ++ [String.ofList n], scope.classes⟩
        .declarationList a).classes := by
  rw [spaceTree, visit_namespace rfl]
  rfl

/-! ## 2. Blocks -/

/-- The comment behind a block: it repeats the name of the namespace that is closed. -/
def trail : List (List Char) → List Token
  | [] => []
  | n :: _ => [⟨.comment, [' ', ' '], "// namespace ".toList ++ n⟩]

/-- In front of the brace that closes a namespace: an empty line behind a class. -/
def closeLead : List (List Char) → List Char
  | [] => ['\n', '\n']
  | _ :: _ => ['\n']

/-- A class in its namespaces, up to the comment behind the last brace. -/
def blockTokens (w : List Char) (Ms : List MethodText) : List Char → List (List Char) → List Token
  | _, [] => classTokens ['\n', '\n'] w Ms
  | lead, n :: ns => spaceTokens lead n ++ markToken [' '] '{' ::
      (blockTokens w Ms ['\n'] ns ++ trail ns ++ [markToken (closeLead ns) '}'])

theorem splitComments_comment (lead w : List Char) (ts : List Token) :
    splitComments (⟨.comment, lead, w⟩ :: ts) =
      (.leaf .comment none lead w :: (splitComments ts).1, (splitComments ts).2) := by
  rw [splitComments, if_pos (by rfl)]

theorem splitComments_trail (ns : List (List Char)) (t : Token) (ht : t.sort ≠ .comment)
    (rest : List Token) : splitComments (trail ns ++ t :: rest) =
      ((trail ns).map (Token.leaf .comment), t :: rest) := by
  cases ns with
  | nil => exact splitComments_of_ne ht
  | cons n ns =>
    rw [trail, List.singleton_append, splitComments_comment, splitComments_of_ne ht]
    rfl

/-- A block begins with a namespace or with its class. -/
theorem begins_block (w : List Char) (Ms : List MethodText) (lead : List Char)
    (ns : List (List Char)) (rest : List Token) :
    Begins [.word ["namespace"], .word ["class"]] (blockTokens w Ms lead ns ++ rest) := by
  cases ns with
  | nil => exact ⟨_, _, rfl, .word ["class"], by simp, rfl, by simp⟩
  | cons n ns => exact ⟨_, _, rfl, .word ["namespace"], by simp, rfl, by simp⟩

theorem paired_trail (ns : List (List Char)) : Paired (trail ns) := by
  cases ns with
  | nil => exact .nil
  | cons n ns => exact .cons (fun h => nomatch h) .nil

/-- The braces of a block are closed in it. -/
theorem paired_block (hw : IsName w) (hMs : ∀ M ∈ Ms, M.Valid) (hns : ∀ n ∈ ns, IsName n)
    (lead : List Char) : Paired (blockTokens w Ms lead ns) := by
  have hword {l v : List Char} {us : List Token} (hus : Paired us) :
      Paired (wordToken l v :: us) := .cons (fun h => nomatch h) hus
  induction ns generalizing lead with
  | nil =>
    have hbraces := (clear_body hw hMs).paired.braces ['\n'] ['\n']
    have hend : Paired [markToken [] ';'] := .cons (fun _ => by decide) .nil
    have hall : Paired (headTokens ['\n', '\n'] w ++ (markToken ['\n'] '{' ::
        (bodyTokens w Ms ++ [markToken ['\n'] '}']) ++ [markToken [] ';'])) :=
      hword (hword (hbraces.append hend))
    simpa [blockTokens, classTokens] using hall
  | cons n ns ih =>
    obtain ⟨-, hns⟩ := List.forall_mem_cons.mp hns
    have hbraces := ((ih hns ['\n']).append (paired_trail ns)).braces [' '] (closeLead ns)
    exact hword (hword hbraces)

/-- **A class in its namespaces is read as an item**, also behind comments, and the walk finds it
there. -/
theorem takes_block (hw : IsName w) (hMs : ∀ M ∈ Ms, M.Valid) (hns : ∀ n ∈ ns, IsName n)
    (lead : List Char) (rest : List Token) : ∃ a,
      (∀ scope parent, parent ≠ .templateDeclaration → (Tree.visitAll scope parent a).classes =
        [{ ClassDecl.describe (String.ofList w) (scope.namespaces ++ ns.map String.ofList)
            scope.classes with methods := Ms.map (·.turned.method) }]) ∧
      ∀ before ts, splitComments ts = (before, blockTokens w Ms lead ns ++ rest) →
        Takes grammar (.rule .item) ts (before ++ a) rest := by
  induction ns generalizing lead rest with
  | nil =>
    obtain ⟨a, hquiet, hmethods, hread⟩ := takes_class hw hMs ['\n', '\n'] rest
    refine ⟨_, fun scope parent hparent => ?_, hread⟩
    have hmark : (Tree.visitAll scope parent [(markToken [] ';').leaf .token]).classes = [] := rfl
    rw [visitAll_cons, visit_classTree _ _ hquiet scope hparent, hmark, hmethods]
    simp
  | cons n ns ih =>
    obtain ⟨hn, hns⟩ := List.forall_mem_cons.mp hns
    obtain ⟨a, ha, hread⟩ := ih hns ['\n'] (trail ns ++ markToken (closeLead ns) '}' :: rest)
    have hbegins := begins_block w Ms ['\n'] ns (trail ns ++ markToken (closeLead ns) '}' :: rest)
    have hclose := splitComments_trail ns (markToken (closeLead ns) '}') nofun rest
    -- behind the block stand its comment and the brace that closes the namespace
    have hstop : Takes grammar (.items (.rule .item) closing)
        (trail ns ++ markToken (closeLead ns) '}' :: rest) []
        (trail ns ++ markToken (closeLead ns) '}' :: rest) :=
      .items_stop (.first (.mark rfl hclose rfl rfl))
    have hitems : Takes grammar (.items (.rule .item) closing)
        (blockTokens w Ms ['\n'] ns ++ trail ns ++ markToken (closeLead ns) '}' :: rest) (a ++ [])
        (trail ns ++ markToken (closeLead ns) '}' :: rest) := by
      rw [List.append_assoc]
      exact .items_cons (fails_of_ahead hbegins.ahead (by decide))
        (hread [] _ hbegins.uncommented) hstop
    have hbraces := takes_braced ((paired_block hw hMs hns ['\n']).append (paired_trail ns))
      hitems hclose [' ']
    have hbody : Takes grammar (.rule .braces) _ _ rest := .rule (.node_front (by rfl) hbraces)
    refine ⟨_, fun scope parent hparent => ?_, fun before ts hts =>
      takes_namespace hn lead hbody (hts.trans ?_)⟩
    · have hnone : ∀ t ∈ (trail ns).map (Token.leaf .comment) ++
          [(markToken (closeLead ns) '}').leaf .token], ∀ scope,
          t.visit scope .declarationList = .empty := by
        refine List.forall_mem_append.mpr ⟨fun t ht => ?_,
          List.forall_mem_singleton.mpr fun _ => rfl⟩
        obtain ⟨u, -, rfl⟩ := List.mem_map.mp ht
        exact fun _ => rfl
      have hopen (scope : Tree.Scope) :
          ((markToken [' '] '{').leaf .token).visit scope .declarationList = .empty := rfl
      have hempty (scope : Tree.Scope) (parent : Kind) :
          (Tree.visitAll scope parent []).classes = [] :=
        rfl
      have hnothing : Tree.Findings.empty.classes = [] := rfl
      rw [visitAll_cons, visit_spaceTree, hempty, List.append_nil, visitAll_cons, hopen,
        visitAll_append, visitAll_quiet (fun t ht => hnone t ht _), hnothing, List.append_nil,
        List.append_nil, List.nil_append, ha _ .declarationList (by decide)]
      simp
    · simp [blockTokens]

end Scaffold.Cpp
