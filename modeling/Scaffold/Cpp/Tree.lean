/-!
# Syntax trees

A concrete syntax tree of a C++ text: every token is a leaf, so the text of a
node can be read off its leaves.

* `Kind` -- what a node stands for; a leaf of kind `token` is a keyword or a
  punctuation mark and has no name of its own (`isNamed`).
* `Role` -- the part a node plays in its parent, such as the name of a class
  or the type of a parameter.
* `Tree.text` -- the text from the first to the last leaf, with the blank
  space between them.
* `Tree.hasError` -- some part of the text did not fit the grammar.
-/
namespace Scaffold.Cpp

/-- What a node of the tree stands for. -/
inductive Kind where
  | translationUnit
  -- declarations
  | namespaceDefinition | namespaceAlias | linkage | declarationList
  | classSpecifier | structSpecifier | unionSpecifier | enumSpecifier
  | baseClause | fieldDeclarationList | enumeratorList | accessSpecifier
  | fieldDeclaration | functionDefinition | declaration
  | templateDeclaration | friendDeclaration | aliasDeclaration | usingDeclaration
  | typeDefinition | staticAssertion | conceptDefinition
  -- names and types
  | identifier | fieldIdentifier | typeIdentifier | namespaceIdentifier
  | nestedNamespace | qualifiedIdentifier | templateType | templateName
  | operatorName | destructorName | operatorCast
  | primitiveType | sizedType | placeholderType | decltype | dependentType
  | typeQualifier | storageClass | virtual | virtualSpecifier | attribute
  | typeDescriptor | templateArguments | templateParameters | typeParameter
  -- declarators
  | functionDeclarator | abstractFunctionDeclarator
  | parenthesizedDeclarator | abstractParenthesizedDeclarator
  | pointerDeclarator | abstractPointerDeclarator
  | referenceDeclarator | abstractReferenceDeclarator
  | arrayDeclarator | abstractArrayDeclarator
  | attributedDeclarator | variadicDeclarator | bindingDeclarator | initDeclarator
  | bitfieldClause | methodClause | fieldInitializers
  | parameterList | parameterDeclaration | optionalParameter | variadicParameter
  | trailingReturnType | exceptionSpecification | refQualifier | requiresClause
  -- statements and expressions
  | compoundStatement | tryStatement | catchClause | statement
  | expression | lambda | argumentList | initializerList
  | numberLiteral | stringLiteral | charLiteral
  -- preprocessor
  | include | systemString | quotedString | macroOperand
  | conditional | conditionalBranch | directiveLine
  -- anywhere
  | comment | error
  /-- A keyword or punctuation mark. -/
  | token
  deriving DecidableEq, Repr

/-- The part a node plays in its parent. -/
inductive Role where
  | name | body | type | declarator | parameters | size | value | path
  deriving DecidableEq, Repr

/-- A syntax tree. A leaf keeps the blank space before its text. -/
inductive Tree where
  | leaf (kind : Kind) (role : Option Role) (lead text : List Char)
  | node (kind : Kind) (role : Option Role) (children : List Tree)
  deriving Repr

namespace Tree

/-! ## 1. Parts of a tree -/

/-- What the root of the tree stands for. -/
def kind : Tree → Kind
  | leaf k _ _ _ => k
  | node k _ _ => k

/-- The part the tree plays in the tree around it. -/
def role : Tree → Option Role
  | leaf _ r _ _ => r
  | node _ r _ => r

/-- The same tree in another part. -/
def withRole (r : Role) : Tree → Tree
  | leaf k _ lead text => leaf k (some r) lead text
  | node k _ cs => node k (some r) cs

/-- The trees right below the root. -/
def children : Tree → List Tree
  | leaf .. => []
  | node _ _ cs => cs

/-- Everything but keywords and punctuation has a name. -/
def isNamed (t : Tree) : Bool := t.kind != .token

/-- The named trees right below the root. -/
def namedChildren (t : Tree) : List Tree := t.children.filter isNamed

/-- The first tree below the root that plays the given part. -/
def child? (t : Tree) (r : Role) : Option Tree := t.children.find? (·.role == some r)

/-- The first tree below the root of the given kind. -/
def childOf? (t : Tree) (k : Kind) : Option Tree := t.children.find? (·.kind == k)

/-! ## 2. Text -/

mutual

/-- The text of a tree with the blank space before it. -/
def spelling : Tree → List Char
  | leaf _ _ lead text => lead ++ text
  | node _ _ cs => spellings cs

/-- The text of a list of trees, with the blank space before the first. -/
def spellings : List Tree → List Char
  | [] => []
  | t :: ts => spelling t ++ spellings ts

end

mutual

/-- The text of a tree, from its first leaf to its last. -/
def text : Tree → List Char
  | leaf _ _ _ text => text
  | node _ _ cs => texts cs

/-- The text of a list of trees, without the blank space before the first. -/
def texts : List Tree → List Char
  | [] => []
  | t :: ts => text t ++ spellings ts

end

/-! ## 3. Errors -/

mutual

/-- Some part of the text of the tree did not fit the grammar. -/
def hasError : Tree → Bool
  | leaf k _ _ _ => k == .error
  | node k _ cs => k == .error || anyError cs

/-- Some tree of a list has an error. -/
def anyError : List Tree → Bool
  | [] => false
  | t :: ts => hasError t || anyError ts

end

end Tree

end Scaffold.Cpp
