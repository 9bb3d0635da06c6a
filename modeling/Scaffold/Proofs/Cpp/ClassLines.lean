import Scaffold.Proofs.Cpp.Blocks
import Scaffold.Proofs.Text.Lines

/-!
# The lines of a class

The header of an interface writes a class line by line, and each line begins a token.

* `ClassText` -- a class that is declared in its namespaces; `ClassText.decl`: the class that is
  described, and `ClassText.turned`: the same class with the bounds of its parameters turned;
* `rows` -- lines, each behind a line feed;
* `spelled_class` -- **the tokens of a class are written as its lines**;
* `Lines`, `lines_class` -- they are read off these lines.
-/
namespace Scaffold

/-- What the users of a class see. -/
def ClassDecl.interface (c : ClassDecl) : ClassDecl :=
  { c with methods := c.methods.map Method.interface }

namespace Cpp

open Artifact (insideNamespaces)
open Artifact.InterfaceHeader (declaration classLines)
open Text (isWord)

variable {ts us rest : List Token} {lead w n : List Char} {ns : List (List Char)}
  {M : MethodText} {Ms : List MethodText} {m : Method} {ms : List Method}

/-- A class with its public methods, in its namespaces. -/
structure ClassText where
  namespaces : List (List Char)
  name : List Char
  methods : List MethodText

namespace ClassText

/-- The class that is described. -/
def decl (C : ClassText) : ClassDecl :=
  { ClassDecl.describe (String.ofList C.name) (C.namespaces.map String.ofList) [] with
    methods := C.methods.map MethodText.method }

/-- The class with the bounds of all parameters turned. -/
def turned (C : ClassText) : ClassText := { C with methods := C.methods.map MethodText.turned }

/-- The tokens of the class in its namespaces. -/
def tokens (C : ClassText) : List Token :=
  blockTokens C.name C.methods ['\n', '\n'] C.namespaces ++ trail C.namespaces

/-- It is declared as the header of an interface declares it. -/
structure Valid (C : ClassText) : Prop where
  namespaces : ∀ n ∈ C.namespaces, IsName n
  name : IsName C.name
  methods : ∀ M ∈ C.methods, M.Valid

end ClassText

variable {C : ClassText} {c : ClassDecl}

/-! ## 1. Lines -/

/-- Lines, each behind a line feed. -/
def rows (ls : List String) : List Char := ls.flatMap fun l => '\n' :: l.toList

@[simp] theorem rows_nil : rows [] = [] := rfl

@[simp] theorem rows_cons (l : String) (ls : List String) :
    rows (l :: ls) = '\n' :: (l.toList ++ rows ls) := rfl

@[simp] theorem rows_append (ls ls' : List String) : rows (ls ++ ls') = rows ls ++ rows ls' :=
  List.flatMap_append

/-- The text of a file ends with a line feed and does not begin with one. -/
theorem toList_unlines (l : String) (ls : List String) :
    (Text.unlines (l :: ls)).toList = l.toList ++ rows ls ++ ['\n'] := by
  rw [Text.toList_unlines, List.flatMap_cons, List.append_assoc, List.append_assoc]
  refine congrArg (l.toList ++ ·) ?_
  induction ls with
  | nil => rfl
  | cons l ls ih =>
    rw [List.flatMap_cons, rows_cons, List.append_assoc, ih]
    simp

/-! ## 2. The lines of a class -/

/-- A class has a virtual method if one is declared. -/
theorem virtualMethods_isEmpty (h : ms.map Method.interface = Ms.map MethodText.method) :
    (ms.filter Method.isVirtual).isEmpty = !Ms.any (·.isVirtual) := by
  induction Ms generalizing ms with
  | nil =>
    rw [List.map_eq_nil_iff.mp h]
    rfl
  | cons M Ms ih =>
    obtain ⟨m, ms, rfl, hm, hms⟩ := List.map_eq_cons_iff.mp h
    rw [List.filter_cons, (specifiers_of_interface hm).1, List.any_cons]
    cases M.isVirtual with
    | true => rfl
    | false => exact ih hms

/-- The lines of the methods of a class. -/
theorem spelled_methods (hMs : ∀ M ∈ Ms, M.Valid)
    (h : ms.map Method.interface = Ms.map MethodText.method) :
    spelled (methodTokens Ms) = rows (ms.map fun m => "    " ++ declaration m ++ ";") := by
  induction Ms generalizing ms with
  | nil =>
    rw [List.map_eq_nil_iff.mp h]
    rfl
  | cons M Ms ih =>
    obtain ⟨hM, hMs⟩ := List.forall_mem_cons.mp hMs
    obtain ⟨m, ms, rfl, hm, hms⟩ := List.map_eq_cons_iff.mp h
    rw [methodTokens, List.flatMap_cons, spelled_append, spelled_method hM hm, List.map_cons,
      rows_cons, ← ih hMs hms]
    simp [memberLead, methodTokens]

/-- **The lines of a class.** -/
theorem spelled_classTokens (hMs : ∀ M ∈ Ms, M.Valid)
    (h : c.methods.map Method.interface = Ms.map MethodText.method)
    (hname : c.name = String.ofList w) :
    spelled (classTokens ['\n', '\n'] w Ms) = rows ("" :: classLines c) := by
  have hvirtual : c.virtualMethods.isEmpty = !Ms.any (·.isVirtual) := virtualMethods_isEmpty h
  have hmethods := spelled_methods hMs h
  rw [classTokens, headTokens, bodyTokens, memberTokens, classLines, hvirtual, hname]
  cases Ms.any (·.isVirtual) with
  | true => simp [hmethods, destructorTokens, tildeTokens, defaultTokens, memberLead]
  | false => simp [hmethods]

/-- The line that opens a namespace. -/
def openingLine (n : List Char) : String := "namespace " ++ String.ofList n ++ " \x7b"

/-- The line that closes it. -/
def closingLine (n : List Char) : String := "\x7d  // namespace " ++ String.ofList n

/-- A namespace is written around what is in it. -/
theorem spelled_namespace (w : List Char) (Ms : List MethodText) (lead n : List Char)
    (ns : List (List Char)) : spelled (blockTokens w Ms lead (n :: ns) ++ trail (n :: ns)) =
      lead ++ (openingLine n).toList ++ (spelled (blockTokens w Ms ['\n'] ns ++ trail ns) ++
        (closeLead ns ++ (closingLine n).toList)) := by
  simp [blockTokens, spaceTokens, trail, openingLine, closingLine]

/-- **The lines of a class inside namespaces.** -/
theorem spelled_block {body : List String}
    (h : spelled (classTokens ['\n', '\n'] w Ms) = rows ("" :: body)) (lead n : List Char)
    (ns : List (List Char)) :
    spelled (blockTokens w Ms lead (n :: ns) ++ trail (n :: ns)) = lead ++ (openingLine n).toList ++
      rows (ns.map openingLine ++ "" :: body ++ "" :: (n :: ns).reverse.map closingLine) := by
  induction ns generalizing lead n with
  | nil =>
    rw [spelled_namespace, blockTokens, trail, List.append_nil, h]
    simp [closeLead]
  | cons n' ns ih =>
    rw [spelled_namespace, ih]
    simp [closeLead]

/-- **The tokens of a class are written as its lines.** -/
theorem spelled_class (hC : C.Valid) (hc : c.interface = C.decl) :
    spelled C.tokens = rows ("" :: insideNamespaces c (classLines c)) := by
  have hmethods : c.methods.map Method.interface = C.methods.map MethodText.method :=
    congrArg ClassDecl.methods hc
  have hname : c.name = String.ofList C.name := congrArg ClassDecl.name hc
  have hspaces : c.namespaces = C.namespaces.map String.ofList := congrArg ClassDecl.namespaces hc
  have hbody := spelled_classTokens hC.methods hmethods hname
  have hopening : (C.namespaces.map String.ofList).map (fun n => "namespace " ++ n ++ " \x7b") =
      C.namespaces.map openingLine := List.map_map
  have hclosing : (C.namespaces.map String.ofList).reverse.map
      (fun n => "\x7d  // namespace " ++ n) =
      C.namespaces.reverse.map closingLine := by
    rw [← List.map_reverse, List.map_map]
    rfl
  rw [insideNamespaces, hspaces, hopening, hclosing, ClassText.tokens]
  cases C.namespaces with
  | nil =>
    rw [blockTokens, trail, List.append_nil, hbody]
    rfl
  | cons n ns =>
    rw [spelled_block hbody]
    simp

/-! ## 3. Reading the lines -/

/-- The tokens are read off their text up to the end of a line. -/
def Lines (ts : List Token) : Prop :=
  ∀ rest, Lexes (spelled ts ++ '\n' :: rest) ts ('\n' :: rest)

/-- Tokens on further lines. -/
theorem Lines.append (h : Lines ts) (h' : Lines us) (hus : (spelled us).head? = some '\n') :
    Lines (ts ++ us) := fun rest => by
  obtain ⟨cs, hcs⟩ := List.head?_eq_some_iff.mp hus
  have hmore := h' rest
  rw [hcs] at hmore
  rw [spelled_append, List.append_assoc, hcs]
  exact (h _).append hmore

theorem Clear.lines (h : Clear ts) : Lines ts :=
  fun rest => lexes_clear h (breaks_of_mem (by decide) rest)

theorem lexes_brace (hlead : Gap lead) {c : Char} (hc : c = '{' ∨ c = '}') (rest : List Char) :
    Lexes (lead ++ c :: rest) [markToken lead c] rest := by
  refine Lexes.token (t := markToken lead c) hlead.isSpace (fun x hx => ?_)
    (List.cons_ne_nil c []) nofun ?_
  · obtain rfl := Option.some.inj hx
    rcases hc with rfl | rfl <;> decide
  · rcases hc with rfl | rfl <;> rfl

theorem lines_brace (hlead : Gap lead) {c : Char} (hc : c = '{' ∨ c = '}') :
    Lines [markToken lead c] := fun rest => by
  simpa using lexes_brace hlead hc ('\n' :: rest)

/-- The line that opens a namespace. -/
theorem lines_opening (hlead : Gap lead) (hn : IsName n) :
    Lines (spaceTokens lead n ++ [markToken [' '] '{']) := fun rest => by
  have hclear : Clear (spaceTokens lead n) :=
    .word hlead (by decide) (.lead (List.cons_ne_nil ' ' []))
      (.word (by decide) hn.1 nofun .nil)
  have hfirst := lexes_clear hclear
    (breaks_of_mem (by decide : ' ' ∈ breakers) ('{' :: '\n' :: rest))
  have hspace : Gap [' '] := by decide
  have hall := hfirst.append (lexes_brace hspace (.inl rfl) ('\n' :: rest))
  simpa using hall

/-- The line that closes it. -/
theorem lines_closing (hlead : Gap lead) (hn : IsName n) (ns : List (List Char)) :
    Lines (markToken lead '}' :: trail (n :: ns)) := fun rest => by
  have hline : OneLine (" namespace ".toList ++ n) := by
    refine List.forall_mem_append.mpr ⟨List.forall_iff_forall_mem.mp (by decide), fun c hc => ?_⟩
    have hpart := Text.isIdentifierPart_of_isWord hn.1 c hc
    constructor <;> (rintro rfl; exact absurd hpart (by decide))
  have hspaces : Gap [' ', ' '] := by decide
  have hcomment := lexes_comment hspaces hline rest
  have hall := (lexes_brace hlead (.inr rfl) _).append hcomment
  simpa [trail] using hall

/-- The line that ends a class. -/
theorem lines_end : Lines [markToken ['\n'] '}', markToken [] ';'] := fun rest => by
  have hclear : Clear [markToken [] ';'] := .mark (by decide) (by decide) .nil
  have hfeed : Gap ['\n'] := by decide
  have hall := (lexes_brace hfeed (.inr rfl) _).append (hclear.lines rest)
  simpa using hall

theorem lines_classTokens (hw : IsName w) (hMs : ∀ M ∈ Ms, M.Valid) (hlead : Gap lead) :
    Lines (classTokens lead w Ms) := by
  have hhead : Clear (headTokens lead w) :=
    .word hlead (by decide) (.lead (List.cons_ne_nil ' ' [])) (.word (by decide) hw.1 nofun .nil)
  have hbrace : Lines [markToken ['\n'] '{'] := lines_brace (by decide) (.inl rfl)
  have hmembers := (clear_body hw hMs).lines.append lines_end rfl
  have hall := hhead.lines.append (hbrace.append hmembers rfl) rfl
  simpa [classTokens] using hall

/-- **A class is read off its lines.** -/
theorem lines_block (hw : IsName w) (hMs : ∀ M ∈ Ms, M.Valid) (hns : ∀ n ∈ ns, IsName n)
    (hlead : Gap lead) : Lines (blockTokens w Ms lead ns ++ trail ns) := by
  induction ns generalizing lead with
  | nil =>
    rw [blockTokens, trail, List.append_nil]
    exact lines_classTokens hw hMs (by decide)
  | cons n ns ih =>
    obtain ⟨hn, hns⟩ := List.forall_mem_cons.mp hns
    have hfeed : (spelled (blockTokens w Ms ['\n'] ns ++ trail ns)).head? = some '\n' := by
      cases ns <;> rfl
    have hone : Gap ['\n'] := by decide
    have hinside := ih hns hone
    have htwo : Gap ['\n', '\n'] := by decide
    have hclose : Gap (closeLead ns) ∧
        (spelled (markToken (closeLead ns) '}' :: trail (n :: ns))).head? = some '\n' := by
      cases ns with
      | nil => exact ⟨htwo, rfl⟩
      | cons n ns => exact ⟨hone, rfl⟩
    have hbehind := hinside.append (lines_closing hclose.1 hn ns) hclose.2
    have hall := (lines_opening hlead hn).append hbehind (by
      rw [spelled_append, List.head?_append, hfeed, Option.some_or])
    simpa [blockTokens] using hall

theorem lines_class (hC : C.Valid) : Lines C.tokens :=
  lines_block hC.name hC.methods hC.namespaces (by decide)

end Cpp

end Scaffold
