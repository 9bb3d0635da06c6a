import Scaffold.Cpp.Pattern

/-!
# The grammar of C++ declarations

The rules by which the tokens of a header make a syntax tree. Declarations,
declarators and types are read in full; an expression is read as operands and
operators without precedence, which is enough to find its end and the
declarations inside it.

* A word is a keyword only where the keyword may stand. Elsewhere it is a
  name, so the lists of reserved words belong to places, not to the language.
* Several kinds of declaration begin alike and are told apart by how they
  end; such a rule reads them all and gives the node its kind by its shape.
* A declaration without its `;` and a member with words that fit nowhere
  behind its declarator are still declarations, with an error in them.
-/
namespace Scaffold.Cpp

/-- The rules of the grammar. -/
inductive Rule where
  -- the text and its items
  | item | braces | conditionalItems | label
  | namespaceBody | namespaceName
  -- classes
  | member | memberList | conditionalMembers
  | classType | enumType | enumerator | conditionalEnumerators | baseClause
  -- declarations
  | specifiers | modifier | qualifier | attribute
  | simpleDeclaration | initializer | functionBody | methodClause
  | constructor | constructorHead | conversion | templateItem | friendItem
  -- types and names
  | type | typeName
  /-- One part of a qualified name, right behind `::` or not. -/
  | segment (inner : Bool)
  | typeDescriptor
  | templateArguments | templateParameters | templateParameter
  -- declarators
  | declarator (name : Kind)
  | plainDeclarator (name : Kind)
  | abstractDeclarator
  | abstractBase
  | functionTail
  | operatorName
  | parameters
  | parameter
  | requirement
  -- statements and expressions
  | block | tryBlock | statement | header
  /-- An expression; inside template arguments no `>` stands in it. -/
  | expression (inAngles : Bool)
  | operand
  | primary
  | postfixPart
  | operator (inAngles : Bool)
  | arguments
  | initializerList
  | lambda

namespace Grammar

/-! ## 1. Shorthands -/

/-- Patterns over the rules. -/
abbrev P := Pattern Rule

/-- The pattern or nothing. -/
def opt (p : P) : P := .alts [p, .seq []]

/-- The pattern once or more often. -/
def plus (p : P) : P := .seq [p, .star p]

/-- The pattern once or more often, with `separator` in between. -/
def sepBy (p separator : P) : P := .seq [p, .star (.seq [separator, p])]

/-- The pattern any number of times with commas in between. -/
def commaList (p : P) : P := opt (sepBy p (.mark ","))

/-- One of the words, as a keyword. -/
def keyword (texts : List String) : P := .oneOf .token texts

/-- A colon that is not half of `::`. -/
def colon : P := .seq [.without (.mark "::"), .mark ":"]

/-- An equals sign that is not half of `==`. -/
def equals : P := .seq [.without (.mark "=="), .mark "="]

/-- The pattern between parentheses. -/
def parens (p : P) : P := .seq [.mark "(", p, .mark ")"]

/-! ## 2. Words -/

/-- The words of built-in types that stand alone. -/
def primitiveWords : List String :=
  ["bool", "char", "int", "float", "double", "void", "size_t", "ssize_t", "ptrdiff_t",
   "intptr_t", "uintptr_t", "charptr_t", "nullptr_t", "max_align_t",
   "int8_t", "int16_t", "int32_t", "int64_t", "uint8_t", "uint16_t", "uint32_t", "uint64_t",
   "char8_t", "char16_t", "char32_t", "char64_t"]

/-- The words that size a built-in type. -/
def sizeWords : List String := ["signed", "unsigned", "long", "short"]

/-- The words that qualify a type. -/
def qualifierWords : List String :=
  ["const", "constexpr", "volatile", "restrict", "__restrict__", "__extension__", "_Atomic",
   "_Noreturn", "noreturn", "_Nonnull", "mutable", "constinit", "consteval"]

/-- The words of storage classes. -/
def storageWords : List String :=
  ["extern", "static", "register", "inline", "__inline", "__inline__", "__forceinline",
   "thread_local", "__thread"]

/-- The words of calling conventions. -/
def callWords : List String :=
  ["__cdecl", "__clrcall", "__stdcall", "__fastcall", "__thiscall", "__vectorcall"]

/-- The words that qualify a pointer and not the type it points to. -/
def pointerWords : List String := ["_unaligned", "__unaligned", "__restrict", "__uptr", "__sptr"]

/-- The words that begin alignments and attributes. -/
def attributeWords : List String :=
  ["alignas", "_Alignas", "__attribute__", "__attribute", "__declspec"]

/-- The words no name has where a type may stand. -/
def typeWords : List String :=
  primitiveWords ++ sizeWords ++ qualifierWords ++ storageWords ++ attributeWords ++
    ["struct", "class", "union", "enum", "typename", "decltype", "auto", "virtual", "operator"]

/-- The words no name has where a declarator may stand. -/
def declaratorWords : List String :=
  primitiveWords ++ sizeWords ++ qualifierWords ++ storageWords ++ attributeWords ++
    callWords ++ pointerWords ++ ["typename", "decltype", "auto", "virtual", "operator"]

/-- The words no name has right behind `::`. -/
def innerWords : List String := ["template", "operator"]

/-- The words that begin an item which is no plain declaration. -/
def itemWords : List String :=
  ["namespace", "using", "template", "typedef", "static_assert", "_Static_assert", "concept",
   "operator", "explicit",
   "if", "else", "switch", "case", "default", "while", "do", "for", "return", "break", "continue",
   "goto", "try", "throw", "co_return", "co_yield", "co_await", "delete", "new", "sizeof", "asm",
   "__asm__"]

/-- The words that begin a member which is no plain declaration. -/
def memberWords : List String :=
  ["public", "protected", "private", "friend", "using", "template", "typedef", "static_assert",
   "_Static_assert", "operator", "explicit"]

/-- The words that are no operand by themselves. -/
def operandWords : List String :=
  ["if", "else", "switch", "case", "default", "while", "do", "for", "return", "break", "continue",
   "goto", "try", "catch", "new", "delete", "sizeof", "throw", "operator", "requires", "struct",
   "class", "union", "enum", "const", "volatile", "static", "template", "namespace", "using",
   "typedef"]

/-! ## 3. Shapes -/

/-- Some tree of the list has the text. -/
def hasText (text : String) (ts : List Tree) : Bool :=
  ts.any fun t => t.kind == .token && t.text == text.toList

/-- Some tree of the list is of the kind. -/
def hasKind (kind : Kind) (ts : List Tree) : Bool := ts.any fun t => t.kind == kind

/-- Some tree of the list plays the role. -/
def hasRole (role : Role) (ts : List Tree) : Bool := ts.any fun t => t.role == some role

/-- A declaration is a definition when it has a body or one of the clauses in
place of one. -/
def isDefinition (ts : List Tree) : Bool := hasRole .body ts || hasKind .methodClause ts

/-- A member declared with a type. -/
def memberShape (ts : List Tree) : Option Kind :=
  some (if isDefinition ts then .functionDefinition else .fieldDeclaration)

/-- An item declared with a type; a type alone makes no node of its own. -/
def itemShape (ts : List Tree) : Option Kind :=
  if isDefinition ts then some .functionDefinition
  else if hasRole .declarator ts then some .declaration
  else none

/-- A declaration without a type. -/
def constructorShape (ts : List Tree) : Option Kind :=
  some (if isDefinition ts then .functionDefinition else .declaration)

/-- A parameter: one with a default value, a pack, or a plain one. -/
def parameterShape (ts : List Tree) : Option Kind :=
  let isPack (t : Tree) : Bool :=
    t.kind == .variadicDeclarator ||
      (t.kind == .referenceDeclarator && hasKind .variadicDeclarator t.children)
  some (if hasRole .value ts then .optionalParameter
    else if ts.any isPack then .variadicParameter
    else .parameterDeclaration)

/-- A name in a type: qualified, constrained, or plain. -/
def nameShape (ts : List Tree) : Option Kind :=
  if hasText "auto" ts then some .placeholderType
  else if hasText "::" ts then some .qualifiedIdentifier
  else none

/-- One part of a qualified name. -/
def segmentShape (ts : List Tree) : Option Kind :=
  if hasKind .templateArguments ts then some .templateType else none

/-- A declared name: qualified, with template arguments, or plain. -/
def declaredShape (ts : List Tree) : Option Kind :=
  if hasText "::" ts then some .qualifiedIdentifier
  else if hasKind .templateArguments ts then some .templateName
  else none

/-- The name of a namespace definition. -/
def namespaceShape (ts : List Tree) : Option Kind :=
  if hasText "::" ts then some .nestedNamespace else none

/-- A class specifier is told by its keyword. -/
def classShape (ts : List Tree) : Option Kind :=
  some (if hasText "class" (ts.take 1) then .classSpecifier
    else if hasText "union" (ts.take 1) then .unionSpecifier
    else .structSpecifier)

/-! ## 4. Preprocessor -/

/-- The directives that begin a conditional. -/
def conditionalStarts : List String := ["if", "ifdef", "ifndef"]

/-- The directives that begin a further branch of a conditional. -/
def branchStarts : List String := ["elif", "elifdef", "elifndef", "else"]

/-- A directive that ends a run of items. -/
def branchEnd : P := .directive .token ("endif" :: branchStarts)

/-- A conditional around items of one sort. -/
def conditional (inner : Rule) : P :=
  let named := opt (.name .identifier [])
  let part (starts : List String) (named : P) : P :=
    .seq [.directive .token starts, named, .items (.rule inner) branchEnd]
  .node .conditional <| .seq
    [.alts [part ["if"] (.seq []), part ["ifdef", "ifndef"] named],
     .star (.node .conditionalBranch
       (.alts [part ["elif", "else"] (.seq []), part ["elifdef", "elifndef"] named])),
     .directive .token ["endif"]]

/-- A directive that makes a node by itself. -/
def directiveLine : P :=
  .otherDirective .directiveLine ("include" :: "endif" :: conditionalStarts ++ branchStarts)

/-- The operand of an include directive. -/
def operand : P :=
  .alts
    [.sort .systemString .systemOperand, .sort .quotedString .quotedOperand,
     .sort .macroOperand .macroOperand]

/-- An include directive. -/
def includeLine : P :=
  .node .include <| .seq [.directive .token ["include"], .role .path operand]

/-- A directive among members or enumerators. An include directive is there
like any other. -/
def innerDirective : P :=
  .alts
    [directiveLine, .node .directiveLine <| .seq [.directive .token ["include"], operand]]

/-- The end of a run of items between braces. -/
def closing : P := .alts [.mark "\x7d", branchEnd]

/-- Items between braces. -/
def braced (inner : Rule) : P :=
  .seq [.closed '{' '}', .mark "\x7b", .items (.rule inner) closing, .mark "\x7d"]

/-- The `;` at the end of a declaration. It is missed where the text or the
brace around the declaration ends, and where a word or a directive begins the
next one. -/
def terminator : P :=
  let begun := [.sort .token .word, .sort .token .number, .sort .token .string,
    .sort .token .character, .sort .token .mark, .otherDirective .token []]
  .alts
    [.mark ";",
     .seq [.ahead (.alts
         [.mark "\x7d", .mark "~", .sort .token .word, .otherDirective .token []]),
       .missing],
     .seq [.without (.alts begun), .missing]]

/-- A token that fits nowhere between a declarator and the end of its
declaration. -/
def strayToken : P :=
  .alts
    [.sort .error .word, .sort .error .number,
     .seq [.without (.alts [.mark ";", .mark "(", .mark "\x7b", .mark "\x7d"]),
       .sort .error .mark]]

/-! ## 5. Rules -/

/-- The tails that turn a declared name into the declarator of a function or
an array. -/
def declaratorTails : List (Kind × P) :=
  [(.functionDeclarator, .rule .functionTail),
   (.attributedDeclarator, plus (.seq [.ahead (.mark "[["), .group '[' ']'])),
   (.arrayDeclarator, .seq
     [.without (.mark "[["), .mark "[", .star (.alts [.rule .qualifier, keyword ["static"]]),
      opt (.role .size (.alts [.seq [.mark "*", .ahead (.mark "]")], .rule (.expression false)])),
      .mark "]"])]

/-- The same for a declarator that declares no name. -/
def abstractTails : List (Kind × P) :=
  declaratorTails.filterMap fun (k, p) =>
    match k with
    | .functionDeclarator => some (.abstractFunctionDeclarator, p)
    | .arrayDeclarator => some (.abstractArrayDeclarator, p)
    | _ => none

/-- The last part of a declared name. -/
def declaredName (name : Kind) (reserved : List String) : P :=
  .alts
    [.rule .operatorName,
     .node .destructorName (.seq [.mark "~", .name .identifier []]),
     .seq [.name name reserved, opt (.seq [.angles, .rule .templateArguments])]]

/-- Declarators with their initial values, after the specifiers. -/
def declaratorList (name : Kind) : P :=
  sepBy (.seq
    [.role .declarator (.grow (.rule (.declarator name)) .declarator
      [(.initDeclarator, .rule .initializer)])]) (.mark ",")

/-- Declarators of members, with the width of a bit field or an initial value. -/
def memberDeclarators : P :=
  let width : P := .node .bitfieldClause (.seq [colon, .rule (.expression false)])
  sepBy (.alts
    [.seq [.role .declarator (.rule (.declarator .fieldIdentifier)), opt width,
       opt (.role .value (.alts
         [.rule .initializerList, .seq [equals, .rule (.expression false)]]))],
     width]) (.mark ",")

/-- A name for a type. -/
def aliasDeclaration : P :=
  .node .aliasDeclaration <| .seq
    [.word "using", .name .typeIdentifier [], .star (.rule .attribute), equals,
     .rule .typeDescriptor, .mark ";"]

/-- An assertion about the program. -/
def staticAssertion : P :=
  .node .staticAssertion <| .seq
    [keyword ["static_assert", "_Static_assert"], .group '(' ')', .mark ";"]

/-- What each rule reads. -/
def grammar : Rule → P
  -- the text and its items
  | .item => .alts
      [.mark ";",
       .rule .conditionalItems, directiveLine, includeLine,
       .node .namespaceDefinition (.seq
         [opt (.word "inline"), .word "namespace", opt (.rule .attribute),
          opt (.role .name (.rule .namespaceName)), .role .body (.rule .namespaceBody)]),
       .node .namespaceAlias (.seq
         [.word "namespace", .name .namespaceIdentifier [], equals, .rule .typeName, .mark ";"]),
       aliasDeclaration,
       .node .usingDeclaration (.seq
         [.word "using", opt (keyword ["namespace", "enum", "typename"]),
          sepBy (.seq [.alts [.rule .typeName, .rule (.plainDeclarator .identifier)],
            opt (.mark "...")]) (.mark ","), .mark ";"]),
       .node .typeDefinition (.seq
         [opt (.word "__extension__"), .word "typedef", .rule .specifiers,
          sepBy (.role .declarator (.rule (.declarator .typeIdentifier))) (.mark ","),
          .star (.rule .attribute), .mark ";"]),
       staticAssertion,
       .rule .templateItem,
       .node .linkage (.seq
         [.word "extern", .sort .stringLiteral .string,
          .role .body (.alts [.rule .namespaceBody, .rule .simpleDeclaration])]),
       .rule .block,
       .rule .statement,
       .rule .constructor,
       .rule .conversion,
       .rule .simpleDeclaration,
       .rule .label,
       .seq [plus (.seq [.ahead (.mark "[["), .rule .attribute]), .rule .item],
       .node .statement (.seq
         [sepBy (.rule (.expression false)) (.mark ","), .mark ";"])]
  | .conditionalItems => conditional .item
  | .braces => .node .declarationList (braced .item)
  | .namespaceBody => .rule .braces
  | .namespaceName => .shaped namespaceShape (.seq
      [opt (.mark "::"), .name .namespaceIdentifier [],
       .star (.seq [.mark "::", opt (.word "inline"), .name .namespaceIdentifier []])])
  | .label => .node .statement (.seq [.name .identifier itemWords, colon, opt (.rule .item)])
  -- classes
  | .memberList => .node .fieldDeclarationList (braced .member)
  | .conditionalMembers => conditional .member
  | .member => .alts
      [.mark ";",
       .rule .conditionalMembers, innerDirective,
       .seq [.oneOf .accessSpecifier ["public", "protected", "private"], colon],
       .rule .templateItem,
       .rule .friendItem,
       aliasDeclaration,
       .node .usingDeclaration (.seq
         [.word "using", opt (keyword ["namespace", "enum", "typename"]),
          sepBy (.seq [.rule (.plainDeclarator .identifier), opt (.mark "...")]) (.mark ","),
          .mark ";"]),
       .node .typeDefinition (.seq
         [.word "typedef", .rule .specifiers,
          sepBy (.role .declarator (.rule (.declarator .typeIdentifier))) (.mark ","),
          .star (.rule .attribute), .mark ";"]),
       staticAssertion,
       .shaped constructorShape (.seq
         [.rule .constructorHead, .alts [.mark ";", .rule .methodClause, .rule .functionBody]]),
       .rule .conversion,
       .shaped memberShape (.seq
         [.without (keyword memberWords), .rule .specifiers,
          .alts
            [.seq [opt memberDeclarators, opt (.rule .attribute), .mark ";"],
             .seq [.role .declarator (.rule (.declarator .fieldIdentifier)),
               .alts [.rule .functionBody, .rule .methodClause]],
             .seq [.role .declarator (.rule (.declarator .fieldIdentifier)), plus strayToken,
               .alts [.rule .functionBody, .rule .methodClause, .mark ";"]],
             .seq [opt (.role .declarator (.rule (.declarator .fieldIdentifier))), terminator]]])]
  | .classType => .shaped classShape (.seq
      [keyword ["class", "struct", "union"], .star (.rule .attribute),
       .alts
         [.seq [opt (.seq [.without (.seq [.word "final", .alts [.mark "\x7b", .mark ":"]]),
                  .role .name (.rule .typeName)]),
            opt (.oneOf .virtualSpecifier ["final", "override"]),
            opt (.rule .baseClause), .role .body (.rule .memberList)],
          .role .name (.rule .typeName)],
       .star (.seq [.ahead (keyword ["__attribute__", "__attribute"]), .rule .attribute])])
  | .baseClause => .node .baseClause (.seq
      [colon, sepBy (.seq
        [.star (.rule .attribute),
         .star (.alts [.oneOf .virtual ["virtual"],
           .oneOf .accessSpecifier ["public", "protected", "private"]]),
         .rule .typeName, opt (.mark "...")]) (.mark ",")])
  | .enumType => .node .enumSpecifier (.seq
      [.word "enum", opt (keyword ["class", "struct"]), .star (.rule .attribute),
       .alts
         [.seq [.role .name (.rule .typeName), opt (.seq [colon, .rule .type]),
            opt (.role .body (.node .enumeratorList (braced .enumerator)))],
          .seq [opt (.seq [colon, .rule .type]),
            .role .body (.node .enumeratorList (braced .enumerator))]],
       .star (.seq [.ahead (keyword ["__attribute__", "__attribute"]), .rule .attribute])])
  | .enumerator => .alts
      [.mark ",", .rule .conditionalEnumerators, innerDirective,
       .seq [.name .identifier [], .star (.rule .attribute),
         opt (.seq [equals, .rule (.expression false)])]]
  | .conditionalEnumerators => conditional .enumerator
  -- declarations
  | .attribute => .alts
      [.node .attribute (.seq [.ahead (.mark "[["), .group '[' ']']),
       .node .attribute (.seq
         [keyword ["__attribute__", "__attribute", "__declspec"], .group '(' ')']),
       .node .typeQualifier (.seq [keyword ["alignas", "_Alignas"], .group '(' ')'])]
  | .qualifier => .alts
      [.oneOf .typeQualifier qualifierWords,
       .node .typeQualifier (.seq [keyword ["alignas", "_Alignas"], .group '(' ')'])]
  | .modifier => .alts
      [.oneOf .storageClass storageWords, .rule .qualifier, .oneOf .virtual ["virtual"],
       .rule .attribute]
  | .specifiers => .seq
      [.star (.rule .modifier), .role .type (.rule .type), .star (.rule .modifier)]
  | .simpleDeclaration => .shaped itemShape (.seq
      [.without (keyword itemWords), .rule .specifiers,
       .alts
         [.mark ";",
          .seq [declaratorList .identifier, .mark ";"],
          .seq [.role .declarator (.rule (.declarator .identifier)), .rule .functionBody],
          .seq [opt (.role .declarator (.rule (.declarator .identifier))), terminator]]])
  | .initializer => .alts
      [.seq [equals, .role .value (.alts [.rule (.expression false)])],
       .role .value (.rule .initializerList),
       .role .value (.rule .arguments)]
  | .functionBody => .seq
      [opt (.node .fieldInitializers (.seq
        [colon, sepBy (.seq [.rule .typeName,
          .alts [.rule .arguments, .rule .initializerList], opt (.mark "...")]) (.mark ",")])),
       .role .body (.alts [.rule .block, .rule .tryBlock])]
  | .methodClause => .node .methodClause (.seq
      [equals, .alts [keyword ["default", "delete"],
         .seq [.ahead (.seq [.sort .numberLiteral .number, .mark ";"]),
           .sort .numberLiteral .number]], .mark ";"])
  | .constructorHead => .seq
      [.star (.alts
         [.seq [.word "explicit", opt (.group '(' ')')], .rule .modifier]),
       .role .declarator (.node .functionDeclarator (.seq
         [.without (keyword itemWords),
          .role .declarator (.rule (.plainDeclarator .identifier)), .rule .functionTail]))]
  | .constructor => .shaped constructorShape (.seq
      [.without (keyword itemWords), .rule .constructorHead,
       .alts [.rule .methodClause, .rule .functionBody]])
  | .conversion => .shaped constructorShape (.seq
      [.star (.alts [.seq [.word "explicit", opt (.group '(' ')')], .rule .modifier]),
       .role .declarator (.node .operatorCast (.seq
         [.star (.seq [.rule (.segment false), .mark "::"]), .word "operator", .rule .specifiers,
          .role .declarator (.rule .abstractDeclarator)])),
       .alts [.mark ";", .rule .methodClause, .rule .functionBody]])
  | .templateItem => .alts
      [.node .templateDeclaration (.seq
         [.word "template", .rule .templateParameters,
          opt (.node .requiresClause (.seq [.word "requires", .rule .requirement])),
          .alts
            [.node .conceptDefinition (.seq
               [.word "concept", .name .identifier [], equals, .rule (.expression false),
                .mark ";"]),
             .rule .templateItem, .rule .friendItem,
             aliasDeclaration,
             .shaped constructorShape (.seq
               [.rule .constructorHead,
                .alts [.mark ";", .rule .methodClause, .rule .functionBody]]),
             .rule .conversion,
             .shaped itemShape (.seq
               [.rule .specifiers,
                .alts
                  [.mark ";",
                   .seq [declaratorList .identifier, .mark ";"],
                   .seq [.role .declarator (.rule (.declarator .identifier)),
                     .alts [.rule .functionBody, .rule .methodClause]],
                   .seq [opt (.role .declarator (.rule (.declarator .identifier))), terminator]]])]]),
       .node .templateDeclaration (.seq
         [.word "template", .rule .specifiers, opt (declaratorList .identifier), .mark ";"])]
  | .friendItem => .node .friendDeclaration (.seq
      [opt (.word "constexpr"), .word "friend",
       .alts
         [.seq [opt (keyword ["class", "struct", "union"]), .rule .typeName, .mark ";"],
          .rule .simpleDeclaration,
          .rule .constructor]])
  -- types and names
  | .type => .alts
      [.rule .classType, .rule .enumType,
       .node .sizedType (.seq
         [plus (keyword sizeWords), .star (.rule .qualifier),
          opt (.oneOf .primitiveType primitiveWords), .star (keyword sizeWords)]),
       .node .sizedType (.seq
         [.oneOf .primitiveType primitiveWords, plus (keyword sizeWords)]),
       .oneOf .primitiveType primitiveWords,
       .node .placeholderType (.word "auto"),
       .node .dependentType (.seq [.word "typename", .rule .type]),
       .rule .typeName]
  | .typeName => .shaped nameShape (.seq
      [.alts [.seq [.mark "::", .rule (.segment true)], .rule (.segment false)],
       .star (.seq [.mark "::", opt (.word "template"), .rule (.segment true)]),
       .without (.mark "::"), opt (.word "auto")])
  | .segment inner => .shaped segmentShape (.seq
      [.alts
         [.node .decltype (.seq [.word "decltype", parens (.alts
            [.seq [.word "auto", .ahead (.mark ")")],
             sepBy (.rule (.expression false)) (.mark ",")])]),
          .name .typeIdentifier (if inner then innerWords else typeWords)],
       opt (.rule .templateArguments)])
  | .typeDescriptor => .node .typeDescriptor (.seq
      [.star (.rule .qualifier), .role .type (.rule .type), .star (.rule .qualifier),
       opt (.role .declarator (.rule .abstractDeclarator))])
  | .templateArguments => .node .templateArguments (.seq
      [.mark "<", commaList (.alts
         [.seq [.rule .typeDescriptor, opt (.mark "..."), .ahead (.alts [.mark ",", .mark ">"])],
          .seq [.rule (.expression true), opt (.mark "...")]]), .mark ">"])
  | .templateParameters => .node .templateParameters (.seq
      [.mark "<", commaList (.rule .templateParameter), .mark ">"])
  | .templateParameter => .alts
      [.node .typeParameter (.seq
         [opt (.seq [.word "template", .rule .templateParameters]),
          keyword ["class", "typename"], opt (.mark "..."),
          opt (.name .typeIdentifier []),
          opt (.seq [equals, .rule .typeDescriptor]),
          .ahead (.alts [.mark ",", .mark ">"])]),
       .node .parameterDeclaration (.seq
         [.rule .specifiers, opt (.mark "..."),
          opt (.role .declarator (.alts
            [.rule (.declarator .identifier), .rule .abstractDeclarator])),
          opt (.seq [equals, .alts
            [.rule (.expression true), .rule .typeDescriptor, .rule .initializerList]])])]
  -- declarators
  | .declarator name => .seq
      [.star (keyword callWords),
       .alts
         [.node .pointerDeclarator (.seq
            [.mark "*", .star (keyword pointerWords), .star (.rule .qualifier),
             .role .declarator (.rule (.declarator name))]),
          .node .referenceDeclarator (.seq
            [.alts [.mark "&&", .mark "&"], .rule (.declarator name)]),
          .grow (.alts
            [.node .parenthesizedDeclarator (parens (.rule (.declarator name))),
             .rule (.plainDeclarator name)]) .declarator declaratorTails]]
  | .plainDeclarator name => .alts
      [.node .bindingDeclarator (.seq
         [.without (.mark "[["), .mark "[", sepBy (.name .identifier []) (.mark ","), .mark "]"]),
       .shaped declaredShape (.seq
         [.alts
            [.seq [opt (.mark "::"), .rule (.segment false), .mark "::", opt (.word "template"),
               .star (.seq [.rule (.segment true), .mark "::", opt (.word "template")])],
             .mark "::"],
          .alts
            [.node .pointerDeclarator (.seq
               [.mark "*", .star (.rule .qualifier), .rule (.declarator name)]),
             declaredName name innerWords]]),
       .shaped declaredShape (declaredName name declaratorWords)]
  | .operatorName => .node .operatorName (.seq
      [.word "operator",
       .alts
         [.seq [.mark "(", .mark ")"], .seq [.mark "[", .mark "]"],
          .seq [keyword ["new", "delete"], opt (.seq [.mark "[", .mark "]"])],
          .word "co_await",
          .seq [.sort .stringLiteral .string, opt (.name .identifier [])],
          .alts (["->*", "->", "<=>", "<<=", ">>=", "...", "&&", "||", "++", "--", "==", "!=",
            "<=", ">=", "+=", "-=", "*=", "/=", "%=", "&=", "|=", "^=", "<<", ">>",
            "+", "-", "*", "/", "%", "^", "&", "|", "~", "!", "=", "<", ">", ","].map .mark)]])
  | .functionTail => .seq
      [.role .parameters (.rule .parameters),
       .star (.alts [.rule .qualifier,
         .seq [.ahead (keyword ["__attribute__", "__attribute"]), .rule .attribute]]),
       opt (.node .refQualifier (.alts [.mark "&&", .mark "&"])),
       opt (.node .exceptionSpecification (.alts
         [.seq [.word "noexcept", opt (parens (opt (.rule (.expression false))))],
          .seq [.word "throw", parens (commaList (.seq
            [.rule .typeDescriptor, opt (.mark "...")]))]])),
       .star (.rule .attribute),
       opt (.node .trailingReturnType (.seq [.mark "->", .rule .typeDescriptor])),
       .alts
         [plus (.oneOf .virtualSpecifier ["final", "override"]),
          .node .requiresClause (.seq [.word "requires", .rule .requirement]),
          .seq []]]
  | .parameters => .node .parameterList (parens (commaList (.rule .parameter)))
  | .parameter => .alts
      [.mark "...",
       .shaped parameterShape (.seq
         [.rule .specifiers,
          .alts
            [.role .declarator (.node .variadicDeclarator
               (.seq [.mark "...", opt (.name .identifier declaratorWords)])),
             .role .declarator (.node .referenceDeclarator (.seq
               [.alts [.mark "&&", .mark "&"], .node .variadicDeclarator
                 (.seq [.mark "...", opt (.name .identifier declaratorWords)])])),
             .seq
               [opt (.role .declarator (.alts
                  [.seq [.rule (.declarator .identifier),
                     .ahead (.alts [.mark ",", .mark ")", .mark "=", .rule .attribute])],
                   .rule .abstractDeclarator])),
                .star (.rule .attribute),
                opt (.seq [equals, .role .value (.alts
                  [.rule (.expression false)])])]]])]
  | .abstractDeclarator => .alts
      [.node .abstractPointerDeclarator (.seq
         [.mark "*", .star (keyword pointerWords), .star (.rule .qualifier),
          opt (.role .declarator (.rule .abstractDeclarator))]),
       .node .abstractReferenceDeclarator (.seq
         [.alts [.mark "&&", .mark "&"], opt (.rule .abstractDeclarator)]),
       .grow (.rule .abstractBase) .declarator abstractTails]
  | .abstractBase => .alts
      (.node .abstractParenthesizedDeclarator (parens (.seq
          [.star (keyword callWords), .star (.seq [.rule (.segment false), .mark "::"]),
           .rule .abstractDeclarator])) ::
        abstractTails.map fun (k, p) => .node k p)
  | .requirement => sepBy (.alts
      [parens (.rule (.expression false)),
       .seq [.word "requires", opt (.rule .parameters), .group '{' '}'],
       keyword ["true", "false"],
       .seq [.rule .typeName, opt (.rule .arguments)]])
      (.alts [.mark "&&", .mark "||", keyword ["and", "or"]])
  -- statements and expressions
  | .block => .node .compoundStatement (braced .item)
  | .tryBlock => .node .tryStatement (.seq
      [.word "try",
       opt (.node .fieldInitializers (.seq
         [colon, sepBy (.seq [.rule .typeName,
           .alts [.rule .arguments, .rule .initializerList], opt (.mark "...")]) (.mark ",")])),
       .role .body (.rule .block),
       plus (.node .catchClause (.seq
         [.word "catch", .rule .parameters, .role .body (.rule .block)]))])
  | .header => .seq
      [.closed '(' ')', .mark "(",
       .star (.alts
         [.mark ";", .mark ",", colon,
          .seq [.rule .specifiers, .rule (.declarator .identifier),
            .ahead (.alts [.mark "=", .mark ":", .mark "\x7b", .mark ","]),
            opt (.rule .initializer)],
          .rule (.expression false)]),
       .mark ")"]
  | .statement => .alts
      [.node .statement (.seq
         [.word "if", opt (keyword ["constexpr", "consteval"]), opt (.rule .header), .rule .item,
          opt (.seq [.word "else", .rule .item])]),
       .node .statement (.seq [keyword ["while", "switch", "for"], .rule .header, .rule .item]),
       .node .statement (.seq
         [.word "do", .rule .item, .word "while", .rule .header, .mark ";"]),
       .node .statement (.seq
         [.word "case", .rule (.expression false), colon, opt (.rule .item)]),
       .node .statement (.seq [.word "default", colon, opt (.rule .item)]),
       .node .statement (.seq
         [keyword ["return", "co_return", "co_yield", "throw"],
          opt (sepBy (.rule (.expression false)) (.mark ",")), .mark ";"]),
       .node .statement (.seq [keyword ["break", "continue"], .mark ";"]),
       .node .statement (.seq [.word "goto", .name .identifier [], .mark ";"]),
       .rule .tryBlock]
  | .expression inAngles => .node .expression (.seq
      [.rule .operand, .star (.alts
         [.seq [.mark "?", opt (sepBy (.rule (.expression false)) (.mark ",")), colon,
            .rule .operand],
          .seq [.rule (.operator inAngles), .rule .operand]])])
  | .operator inAngles =>
      let plain := ["->*", ".*", "<=>", "<<=", "<<", "<=", "==", "!=", "&&", "||", "+=", "-=", "*=",
        "/=", "%=", "&=", "|=", "^=", "=", "+", "-", "*", "/", "%", "&", "|", "^", "<"]
      let closers := if inAngles then [] else [">>=", ">>", ">=", ">"]
      .alts
        [.alts (plain.map .mark), .alts (closers.map .mark),
         keyword ["and", "or", "xor", "bitand", "bitor", "not_eq", "and_eq", "or_eq", "xor_eq"]]
  | .operand => .seq
      [.star (.alts
         [.alts (["++", "--", "&&", "!", "~", "-", "+", "*", "&"].map .mark),
          keyword ["not", "compl", "co_await", "throw", "__extension__"],
          .seq [.word "delete", opt (.seq [.mark "[", .mark "]"])],
          .seq [.word "sizeof", .without (.mark "("), .without (.mark "...")]]),
       .rule .primary, .star (.rule .postfixPart)]
  | .postfixPart => .alts
      [.rule .arguments,
       .seq [.without (.mark "[["), .mark "[",
         commaList (.rule (.expression false)), .mark "]"],
       .seq [.alts [.seq [.without (.mark "->*"), .mark "->"],
           .seq [.without (.mark ".*"), .without (.mark "..."), .mark "."]],
         opt (.word "template"), .rule (.plainDeclarator .identifier)],
       .mark "++", .mark "--",
       .seq [.mark "...", .ahead (.alts [.mark ")", .mark ",", .mark "\x7d", .mark ">"])]]
  | .primary => .alts
      [.sort .numberLiteral .number, .sort .charLiteral .character,
       .seq [.sort .stringLiteral .string,
         .star (.alts [.sort .stringLiteral .string,
           .seq [.name .identifier operandWords, .ahead (.sort .stringLiteral .string)]])],
       .rule .lambda,
       .rule .initializerList,
       .mark "...",
       .seq [.mark "(", .rule .typeDescriptor, .mark ")",
         .alts
           [.rule .initializerList,
            .seq [.ahead (.alts [.sort .token .word, .sort .token .number, .sort .token .string,
                .sort .token .character, .mark "~", .mark "!"]),
              .without (keyword ["and", "or", "xor", "bitand", "bitor", "not_eq"]),
              .rule .operand]]],
       parens (.rule .block),
       parens (sepBy (.rule (.expression false)) (.alts
         [.mark ",", .rule (.operator false)])),
       .seq [keyword ["sizeof", "alignof", "_Alignof", "typeid", "decltype", "noexcept",
           "offsetof"],
         opt (.mark "..."), parens (commaList (.alts
           [.seq [.rule .typeDescriptor, .ahead (.alts [.mark ")", .mark ","])],
            .rule (.expression false)]))],
       .seq [.word "requires", opt (.rule .parameters), .group '{' '}'],
       .seq [opt (.mark "::"), .word "new", opt (.rule .arguments), .rule .typeDescriptor,
         opt (.alts [.rule .arguments, .rule .initializerList])],
       .seq [.word "typename", .rule .typeName, opt (.rule .initializerList)],
       .shaped declaredShape (.seq
         [opt (.mark "::"),
          .star (.seq [.name .identifier operandWords,
            opt (.seq [.angles, .rule .templateArguments]), .mark "::",
            opt (.word "template")]),
          .alts
            [.rule .operatorName,
             .node .destructorName (.seq [.mark "~", .name .identifier []]),
             .seq [.name .identifier operandWords,
               opt (.seq [.angles, .rule .templateArguments,
                 .without (.alts [.sort .token .word, .sort .token .number, .sort .token .string,
                   .sort .token .character])])]],
          opt (.rule .initializerList)])]
  | .arguments => .node .argumentList (parens (commaList (.alts
      [.rule (.expression false), .rule .block])))
  | .initializerList => .node .initializerList (.seq
      [.closed '{' '}', .mark "\x7b",
       commaList (.seq
         [.star (.alts [.seq [.mark ".", .name .identifier []],
            .seq [.mark "[", .rule (.expression false), .mark "]"]]),
          opt equals, .rule (.expression false)]),
       opt (.mark ","), .mark "\x7d"])
  | .lambda => .node .lambda (.seq
      [.ahead (.mark "["), .without (.mark "[["), .group '[' ']',
       opt (.rule .templateParameters), opt (.rule .parameters),
       .star (.alts
         [keyword ["mutable", "constexpr", "consteval", "static"],
          .seq [.word "noexcept", opt (.group '(' ')')], .rule .attribute,
          .node .trailingReturnType (.seq [.mark "->", .rule .typeDescriptor]),
          .node .requiresClause (.seq [.word "requires", .rule .requirement])]),
       .role .body (.rule .block)])

end Grammar

/-- How deep patterns may nest on a text of the given number of tokens. -/
def nesting (tokens : Nat) : Nat := 200 * tokens + 1000

/-- The syntax tree of a text. -/
def parse (text : List Char) : Tree :=
  let ts := tokens text
  match Pattern.run Grammar.grammar (nesting ts.length)
      (.node .translationUnit (.items (.rule .item) (.alts []))) ts with
  | some (trees, _) => (trees.getLast?).getD (.node .translationUnit none [])
  | none => .node .translationUnit none []

end Scaffold.Cpp
