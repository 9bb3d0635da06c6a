/-!
# Arguments of the command line

What the words behind the program's name ask for. There are two commands, each
with options of its own, and options that may stand before or behind the name
of a command.

`read` gives what is asked for, or refuses; **an option is given at most
once** on either side of the command.
-/
namespace Scaffold.Command

/-! ## 1. Options -/

/-- An option. -/
inductive Flag where
  | config | format | verbose | quiet
  | help | version
  | unitTest | mock | force
  deriving DecidableEq, Repr

/-- A value comes with the option. -/
def Flag.takesValue : Flag → Bool
  | .config | .format | .unitTest | .mock => true
  | .verbose | .quiet | .help | .version | .force => false

/-- The value is one that the option takes. -/
def Flag.accepts (f : Flag) (value : String) : Bool :=
  match f with
  | .format => value == "text" || value == "json"
  | _ => value != ""

/-- The options that may stand anywhere, by their names. -/
def sharedNames : List (String × Flag) :=
  [("config", .config), ("format", .format), ("verbose", .verbose), ("quiet", .quiet),
   ("help", .help)]

/-- The same by their letters. -/
def sharedLetters : List (Char × Flag) :=
  [('c', .config), ('v', .verbose), ('q', .quiet), ('h', .help)]

/-- The names of the options at a place. -/
structure Known where
  names : List (String × Flag)
  letters : List (Char × Flag)

/-- The options before the name of a command. -/
def Known.before : Known :=
  ⟨("version", .version) :: sharedNames, ('V', .version) :: sharedLetters⟩

/-- The options behind `gen`. -/
def Known.gen : Known :=
  ⟨[("unit-test", .unitTest), ("mock", .mock), ("force", .force)] ++ sharedNames, sharedLetters⟩

/-- The options behind `init`. -/
def Known.init : Known := ⟨("force", .force) :: sharedNames, sharedLetters⟩

/-! ## 2. Words -/

/-- What a word is. -/
inductive Word where
  /-- Options that take no value, and then perhaps one that does: its value is
  in the same word or is the next word. -/
  | flags (plain : List Flag) (valued : Option (Flag × Option String))
  /-- Two hyphens, behind which there are no options. -/
  | divider
  | other
  | unknown
  deriving DecidableEq, Repr

/-- The options that a word of letters gives. -/
def readLetters (k : Known) (plain : List Flag) : List Char → Word
  | [] => .flags plain.reverse none
  | c :: cs =>
    match k.letters.lookup c with
    | none => .unknown
    | some f =>
      if f.takesValue then
        match cs with
        | [] => .flags plain.reverse (some (f, none))
        | '=' :: value => .flags plain.reverse (some (f, some (String.ofList value)))
        | value => .flags plain.reverse (some (f, some (String.ofList value)))
      else readLetters k (f :: plain) cs

/-- The option that a name gives, with a value if there is an equals sign. -/
def readName (k : Known) (cs : List Char) : Word :=
  match k.names.lookup (String.ofList (cs.takeWhile (· != '='))) with
  | none => .unknown
  | some f =>
    match cs.dropWhile (· != '=') with
    | [] => if f.takesValue then .flags [] (some (f, none)) else .flags [f] none
    | _ :: value =>
      if f.takesValue then .flags [] (some (f, some (String.ofList value))) else .unknown

/-- What a word is. A lone hyphen is no option. -/
def readWord (k : Known) (word : String) : Word :=
  match word.toList with
  | ['-', '-'] => .divider
  | '-' :: '-' :: cs => readName k cs
  | ['-'] => .other
  | '-' :: cs => readLetters k [] cs
  | _ => .other

/-- The word looks like an option, so it is no value. -/
def looksLikeFlag (word : String) : Bool :=
  match word.toList with
  | ['-'] => false
  | '-' :: _ => true
  | _ => false

/-! ## 3. Reading options -/

/-- The options given so far, with the values of those that take one. -/
abbrev Given := List (Flag × String)

/-- Where the options at a place end. -/
inductive Stop where
  /-- At the end of the words. -/
  | ended (given : Given)
  /-- At a word that is no option. -/
  | word (given : Given) (word : String) (rest : List String)
  | help
  | version
  | refused
  deriving DecidableEq, Repr

/-- One more option; none when it has been given or does not take the value. -/
def addFlag (given : Given) (f : Flag) (value : String) : Option Given :=
  if (given.lookup f).isSome || (f.takesValue && !f.accepts value) then none
  else some (given ++ [(f, value)])

/-- More options without values. -/
def addFlags : Given → List Flag → Except Stop Given
  | given, [] => .ok given
  | given, f :: fs =>
    if f == .help then .error .help
    else if f == .version then .error .version
    else match addFlag given f "" with
      | some given => addFlags given fs
      | none => .error .refused

/-- Reads the options at the beginning of the words. -/
def readFlags (k : Known) (given : Given) : List String → Stop
  | [] => .ended given
  | w :: ws =>
    match readWord k w with
    | .unknown => .refused
    | .other => .word given w ws
    | .divider => if ws.isEmpty then .ended given else .refused
    | .flags plain valued =>
      match addFlags given plain with
      | .error stop => stop
      | .ok given =>
        match valued with
        | none => readFlags k given ws
        | some (f, some value) =>
          match addFlag given f value with
          | some given => readFlags k given ws
          | none => .refused
        | some (f, none) =>
          match ws with
          | [] => .refused
          | value :: ws =>
            if looksLikeFlag value then .refused
            else match addFlag given f value with
              | some given => readFlags k given ws
              | none => .refused

/-! ## 4. What is asked for -/

/-- What tests or mocks are made of. -/
inductive Target where
  /-- Tests of a header or a directory. -/
  | unitTest (path : String)
  /-- The mock of a header. -/
  | mock (header : String)
  deriving DecidableEq, Repr

/-- What the words ask for. -/
inductive Wish where
  | gen (target : Target) (force json : Bool) (config : Option String)
  | init (force json : Bool)
  | version
  | help
  deriving DecidableEq, Repr

/-- Why words are refused. -/
inductive Refusal where
  /-- They ask for nothing. -/
  | nothing
  /-- They do not fit together. -/
  | misfit
  deriving DecidableEq, Repr

/-- The options go together. -/
def fits (given : Given) : Bool :=
  !((given.lookup .verbose).isSome && (given.lookup .quiet).isSome)

/-- The options of a command: those behind its name count before those in
front of it. -/
def both (before behind : Given) : Given := behind ++ before

/-- The report is to be written as JSON. -/
def wantsJson (given : Given) : Bool := given.lookup .format == some "json"

/-- What the command `gen` is to do with the options behind its name. -/
def genWish (before behind : Given) : Except Refusal Wish :=
  let given := both before behind
  let force := (behind.lookup .force).isSome
  match behind.lookup .unitTest, behind.lookup .mock with
  | some path, none =>
    .ok (.gen (.unitTest path) force (wantsJson given) (given.lookup .config))
  | none, some header =>
    .ok (.gen (.mock header) force (wantsJson given) (given.lookup .config))
  | _, _ => .error .misfit

/-- What the options behind the name of a command ask for. -/
def commandWish (before : Given) (wish : Given → Except Refusal Wish) : Stop → Except Refusal Wish
  | .ended behind => if fits before && fits behind then wish behind else .error .misfit
  | .help => .ok .help
  | .version => .ok .version
  | .word .. | .refused => .error .misfit

/-- What words ask for. -/
def readWish (words : List String) : Except Refusal Wish :=
  match readFlags .before [] words with
  | .help => .ok .help
  | .version => .ok .version
  | .ended [] => .error .nothing
  | .ended _ | .refused => .error .misfit
  | .word before "gen" rest =>
    commandWish before (genWish before) (readFlags .gen [] rest)
  | .word before "init" rest =>
    commandWish before (fun behind =>
      .ok (.init (behind.lookup .force).isSome (wantsJson (both before behind))))
      (readFlags .init [] rest)
  | .word _ "help" rest =>
    match rest with
    | [] | ["gen"] | ["init"] | ["help"] => .ok .help
    | _ => .error .misfit
  | .word .. => .error .misfit

end Scaffold.Command
