import Scaffold.Cpp.Grammar
import Scaffold.Header
import Scaffold.Text.Blank

/-!
# Describing a header

From the syntax tree of a header to its description.

* `Tree.visit` walks the tree in order and collects the include directives,
  the namespaces and the classes; the bodies of functions are left out.
* `methods` reads the public methods off the body of a class.
* `peel` undoes a declarator: it gives the declared part and the pieces of the
  type that the declarator spells.
* `describe` does all of it on a text. It never fails: what does not fit the
  grammar is passed over.
-/
namespace Scaffold.Cpp

/-! ## 1. Spelling types -/

/-- A declarator without its pointers, references and arrays, and these as
they are written behind a type. -/
structure Peeled where
  inner : Option Tree
  suffix : List Char

namespace Tree

/-- The qualifiers of a pointer, each after a space. -/
def pointerQualifiers (ts : List Tree) : List Char :=
  ts.flatMap fun t => if t.kind == .typeQualifier then ' ' :: t.text else []

mutual

/-- Takes the pointers, references and arrays off a declarator. -/
def peel : Tree → Peeled
  | .node kind r cs =>
    match kind with
    | .pointerDeclarator | .abstractPointerDeclarator =>
      let inner := peelRole .declarator cs
      ⟨inner.inner, '*' :: pointerQualifiers cs ++ inner.suffix⟩
    | .referenceDeclarator | .abstractReferenceDeclarator =>
      let inner := peelNamed cs
      ⟨inner.inner, (cs.head?.map text).getD ['&'] ++ inner.suffix⟩
    | .arrayDeclarator | .abstractArrayDeclarator =>
      let size := (((Tree.node kind r cs).child? .size).map text).getD []
      let inner := peelRole .declarator cs
      ⟨inner.inner, '[' :: size ++ ']' :: inner.suffix⟩
    | _ => ⟨some (.node kind r cs), []⟩
  | .leaf kind r lead text => ⟨some (.leaf kind r lead text), []⟩

/-- The same for the first tree of the list in the given role. -/
def peelRole (r : Role) : List Tree → Peeled
  | [] => ⟨none, []⟩
  | t :: ts => if t.role == some r then peel t else peelRole r ts

/-- The same for the first named tree of the list. -/
def peelNamed : List Tree → Peeled
  | [] => ⟨none, []⟩
  | t :: ts => if t.isNamed then peel t else peelNamed ts

end

/-- The type a declaration spells: its qualifiers, the type, and what its
declarator adds. -/
def spellType (declaration type : Tree) (suffix : List Char) : List Char :=
  let qualifiers := ((declaration.namedChildren.filter (·.kind == .typeQualifier)).map text).filter
    fun q => q == "const".toList || q == "volatile".toList
  List.intercalate [' '] (qualifiers ++ [Text.squeeze type.text]) ++ suffix

/-! ## 2. Methods -/

/-- A parameter; none when it has no type. A function pointer keeps its whole
spelling as its type. -/
def parameter? (t : Tree) : Option Parameter := do
  let type ← t.child? .type
  match t.child? .declarator with
  | none => pure ⟨"", String.ofList (spellType t type [])⟩
  | some declarator =>
    let peeled := declarator.peel
    match peeled.inner with
    | none => pure ⟨"", String.ofList (spellType t type peeled.suffix)⟩
    | some inner =>
      if inner.kind == .identifier then
        pure ⟨String.ofList inner.text, String.ofList (spellType t type peeled.suffix)⟩
      else pure ⟨"", String.ofList (Text.squeeze t.text)⟩

/-- The parameters of a parameter list. -/
def parameterList (t : Tree) : List Parameter :=
  t.namedChildren.filterMap fun p =>
    match p.kind with
    | .parameterDeclaration | .optionalParameter => p.parameter?
    | .variadicParameter => some ⟨"", String.ofList (Text.squeeze p.text)⟩
    | _ => none

/-- The method that a member declares or defines. Fields, constructors,
destructors and operators are no methods. -/
def method? (t : Tree) : Option Method := do
  let type ← t.child? .type
  let peeled := (← t.child? .declarator).peel
  let function ← peeled.inner
  if function.kind != .functionDeclarator then none
  let name ← function.child? .declarator
  if name.kind != .fieldIdentifier && name.kind != .identifier then none
  let returnType :=
    match (function.childOf? .trailingReturnType).bind (·.namedChildren.head?) with
    | some trailing => Text.squeeze trailing.text
    | none => spellType t type peeled.suffix
  let isVirtual := (t.childOf? .virtual).isSome || (t.childOf? .virtualSpecifier).isSome ||
    (function.childOf? .virtualSpecifier).isSome
  let isConst := function.namedChildren.any fun c =>
    c.kind == .typeQualifier && c.text == "const".toList
  pure <| Method.describe (String.ofList name.text) (String.ofList returnType)
    ((if isVirtual then [.override] else []) ++ (if isConst then [.const] else []))
    (((function.child? .parameters).map parameterList).getD [])

/-! ## 3. Members -/

/-- Who may use a member. -/
inductive Access where
  | «public» | «protected» | «private»
  deriving DecidableEq, Repr

/-- The access that a specifier grants to the members after it. -/
def access (t : Tree) : Access :=
  let word := Text.trim (Text.dropEndWhile (· == ':') (Text.trim t.text))
  if word == "public".toList then .public
  else if word == "protected".toList then .protected
  else .private

/-- A declaration of something with a type. -/
def declares (t : Tree) : Bool :=
  t.kind == .fieldDeclaration || t.kind == .functionDefinition || t.kind == .declaration

/-- The public methods among the members of a class, from a place where
members have the given access. -/
def methodsFrom : Access → List Tree → List Method
  | _, [] => []
  | a, t :: ts =>
    if t.kind == .accessSpecifier then methodsFrom t.access ts
    else if a == .public && t.declares then
      match t.method? with
      | some m => m :: methodsFrom a ts
      | none => methodsFrom a ts
    else methodsFrom a ts

/-- The public methods of the body of a class. -/
def methods (body : Tree) (initial : Access) : List Method :=
  methodsFrom initial body.namedChildren

/-! ## 4. Namespaces and includes -/

mutual

/-- The names of a possibly nested namespace name, outermost first. -/
def namespaceNames : Tree → List (List Char)
  | .leaf kind _ _ text => if kind == .namespaceIdentifier then [text] else []
  | .node kind _ cs => if kind == .nestedNamespace then namespaceNamesOf cs else []

/-- The names of a list of namespace names. -/
def namespaceNamesOf : List Tree → List (List Char)
  | [] => []
  | t :: ts => namespaceNames t ++ namespaceNamesOf ts

end

/-- The include directive of a node; none when it has no operand. -/
def include? (t : Tree) : Option Include := do
  let operand ← t.child? .path
  let raw := Text.trim operand.text
  if operand.kind == .systemString then
    pure ⟨String.ofList (Text.dropEndWhile (· == '>') (raw.dropWhile (· == '<'))), true⟩
  else
    pure ⟨String.ofList (Text.dropEndWhile (· == '"') (raw.dropWhile (· == '"'))), false⟩

/-! ## 5. The walk -/

/-- The namespaces and classes around a place, outermost first. -/
structure Scope where
  namespaces : List String
  classes : List String

/-- What the walk over a part of the tree finds. -/
structure Findings where
  namespaces : List String
  classes : List ClassDecl
  includes : List Include

/-- Nothing found. -/
def Findings.empty : Findings := ⟨[], [], []⟩

/-- What is found in one part and then in another. -/
def Findings.append (a b : Findings) : Findings :=
  ⟨a.namespaces ++ b.namespaces, a.classes ++ b.classes, a.includes ++ b.includes⟩

instance : Append Findings := ⟨Findings.append⟩

/-- The name of a class that gets a description: it has a body and a plain
name, and is no template. -/
def className? (parent : Kind) (t : Tree) : Option (List Char) := do
  if parent == .templateDeclaration then none
  let _ ← t.child? .body
  let name ← t.child? .name
  if name.kind == .typeIdentifier then some name.text else none

/-- The description of a class, without what is nested in it. -/
def classDecl (scope : Scope) (name : String) (initial : Access) (t : Tree) : ClassDecl :=
  { ClassDecl.describe name scope.namespaces scope.classes with
    methods := ((t.child? .body).map (methods · initial)).getD [] }

mutual

/-- What is found in a tree, below a node of the kind `parent`. -/
def visit (scope : Scope) (parent : Kind) : Tree → Findings
  | .leaf .. => .empty
  | .node kind r cs =>
    let t := Tree.node kind r cs
    match kind with
    | .namespaceDefinition =>
      let names := (((t.child? .name).map namespaceNames).getD []).map String.ofList
      ⟨names, [], []⟩ ++ visitBody ⟨scope.namespaces ++ names, scope.classes⟩ cs
    | .classSpecifier | .structSpecifier =>
      match t.className? parent with
      | none => .empty
      | some name =>
        let name := String.ofList name
        let initial := if kind == .classSpecifier then Access.private else Access.public
        ⟨[], [t.classDecl scope name initial], []⟩ ++
          visitBody ⟨scope.namespaces, scope.classes ++ [name]⟩ cs
    | .include => ⟨[], [], t.include?.toList⟩
    | .fieldDeclaration | .functionDefinition | .declaration => visitOutside scope kind cs
    | _ => visitAll scope kind cs

/-- What is found in the trees of a list, in order. -/
def visitAll (scope : Scope) (parent : Kind) : List Tree → Findings
  | [] => .empty
  | t :: ts => visit scope parent t ++ visitAll scope parent ts

/-- What is found in the trees of a list that are no function bodies. -/
def visitOutside (scope : Scope) (parent : Kind) : List Tree → Findings
  | [] => .empty
  | t :: ts =>
    (if t.kind == .compoundStatement then .empty else visit scope parent t) ++
      visitOutside scope parent ts

/-- What is found below the first tree of a list that plays the body. -/
def visitBody (scope : Scope) : List Tree → Findings
  | [] => .empty
  | t :: ts =>
    if t.role == some .body then visitBelow scope t else visitBody scope ts

/-- What is found below a tree, whatever the tree itself stands for. -/
def visitBelow (scope : Scope) : Tree → Findings
  | .leaf .. => .empty
  | .node kind _ cs => visitAll scope kind cs

end

/-- The description of the header with the given file name and tree. -/
def describe (name : String) (t : Tree) : Header :=
  let found := t.visit ⟨[], []⟩ .translationUnit
  ⟨name, found.namespaces, found.classes, found.includes⟩

end Tree

/-- The description of the header with the given file name and text. -/
def describe (name : String) (text : String) : Header :=
  (parse text.toList).describe name

end Scaffold.Cpp
