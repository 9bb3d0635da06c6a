import Scaffold.Path
import Scaffold.Text.Blank

/-!
# Descriptions of headers

What is known of one C++ header: its include directives, the namespaces it
opens, and its classes with their public methods.

* `Method` carries its specifiers as a list that reads `override, const` when
  the method is made by `Method.describe`;
* `ClassDecl` knows the namespaces and the classes it stands in;
* `Header` collects everything in the order of the text.
-/
namespace Scaffold

/-! ## 1. Methods -/

/-- What is recorded beside the types of a method. -/
inductive Specifier where
  /-- The method is virtual, so a mock overrides it. -/
  | override
  /-- The method may be called on a constant object. -/
  | const
  deriving DecidableEq, Repr

/-- The word a specifier is written with. -/
def Specifier.word : Specifier → String
  | .override => "override"
  | .const => "const"

/-- A parameter of a method; the name is empty for an unnamed one. -/
structure Parameter where
  name : String
  type : String
  deriving DecidableEq, Repr

/-- A lone unnamed `void` stands for "no parameters". -/
def Parameter.isVoid (p : Parameter) : Bool := p.type == "void" && p.name.isEmpty

/-- A public method of a class. -/
structure Method where
  name : String
  returnType : String
  specifiers : List Specifier
  parameters : List Parameter
  deriving DecidableEq, Repr

namespace Method

/-- A method with its specifiers in order and without repetitions. -/
def describe (name returnType : String) (specifiers : List Specifier)
    (parameters : List Parameter) : Method where
  name := name
  returnType := returnType
  specifiers := [Specifier.override, Specifier.const].filter specifiers.contains
  parameters := parameters

/-- The method is virtual. -/
def isVirtual (m : Method) : Bool := m.specifiers.contains .override

/-- The method is a `const` one. -/
def isConst (m : Method) : Bool := m.specifiers.contains .const

/-- The method returns nothing. -/
def returnsVoid (m : Method) : Bool := m.returnType == "void"

/-- The parameters to be written: none when the only one is a lone `void`. -/
def effective (m : Method) : List Parameter :=
  match m.parameters with
  | [p] => if p.isVoid then [] else [p]
  | ps => ps

/-- A parameter as it is declared: its type, and its name if it has one. -/
def typed (p : Parameter) : String :=
  if p.name.isEmpty then p.type else p.type ++ " " ++ p.name

/-- The parameters as declared, such as `int x, const std::string& name`. -/
def typedList (m : Method) : String := ", ".intercalate (m.effective.map typed)

/-- The types of the parameters, such as `int, const std::string&`. -/
def typeList (m : Method) : String := ", ".intercalate (m.effective.map Parameter.type)

/-- The names of the parameters, such as `x, name`. -/
def nameList (m : Method) : String := ", ".intercalate (m.effective.map Parameter.name)

/-- The specifiers, such as `override, const`. -/
def specifierList (m : Method) : String := ", ".intercalate (m.specifiers.map Specifier.word)

/-- The return type ends in a reference. -/
def returnsReference (m : Method) : Bool :=
  match m.returnType.toList.reverse.dropWhile Text.isBlank with
  | c :: _ => c == '&'
  | [] => false

end Method

/-! ## 2. Classes -/

/-- A class with a body and its public methods. -/
structure ClassDecl where
  name : String
  /-- The name of the class that mocks it. -/
  mockName : String
  /-- The enclosing namespaces, outermost first. -/
  namespaces : List String
  /-- The enclosing classes, outermost first. -/
  outerClasses : List String
  methods : List Method
  deriving DecidableEq, Repr

namespace ClassDecl

/-- A class without methods yet; its mock is named after it. -/
def describe (name : String) (namespaces outerClasses : List String) : ClassDecl where
  name := name
  mockName := "Mock" ++ name
  namespaces := namespaces
  outerClasses := outerClasses
  methods := []

/-- The class stands inside another class. -/
def isNested (c : ClassDecl) : Bool := !c.outerClasses.isEmpty

/-- The name with everything the class stands in, such as `demo::Foo`. -/
def qualifiedName (c : ClassDecl) : String :=
  "::".intercalate (c.namespaces ++ c.outerClasses ++ [c.name])

/-- The mock's name, in the namespaces of the class. -/
def qualifiedMockName (c : ClassDecl) : String :=
  "::".intercalate (c.namespaces ++ [c.mockName])

/-- The methods a mock overrides. -/
def virtualMethods (c : ClassDecl) : List Method := c.methods.filter Method.isVirtual

/-- The methods a mock defines out of line. -/
def plainMethods (c : ClassDecl) : List Method := c.methods.filter fun m => !m.isVirtual

end ClassDecl

/-! ## 3. Headers -/

/-- An include directive: the operand without its delimiters, and whether
they were angle brackets. -/
structure Include where
  name : String
  system : Bool
  deriving DecidableEq, Repr

/-- The operand of an include directive as it is written out. -/
def Include.operand (i : Include) : String :=
  if i.system then "<" ++ i.name ++ ">" else "\"" ++ i.name ++ "\""

/-- Everything that is described of one header. -/
structure Header where
  /-- The file name, such as `foo.h`. -/
  name : String
  /-- Every namespace the text opens, once per opening. -/
  namespaces : List String
  classes : List ClassDecl
  includes : List Include
  deriving DecidableEq, Repr

namespace Header

/-- The file name without its extension. -/
def stem (h : Header) : String := (Path.cutName h.name).1

/-- The classes that get artifacts of their own; a nested class is declared
by its parent. -/
def topLevel (h : Header) : List ClassDecl := h.classes.filter fun c => !c.isNested

end Header

end Scaffold
