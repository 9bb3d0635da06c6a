import Scaffold.Cpp.Token
import Scaffold.Cpp.Tree

/-!
# Patterns

A grammar is given by one **pattern** for each of its rules. Matching a
pattern against the tokens of a text either fails or takes some tokens off
the front and gives the trees they make.

* Alternatives are ordered: the first that matches is taken and no other is
  tried again later.
* `grow` builds trees that grow to the right of what has been read, such as
  the declarator of a function around the declarator of its name.
* `items` reads what it can and keeps a token that does not fit as an error.
* A comment belongs to the innermost node that has tokens on both sides of
  it, so a node takes over the comments between its parts, and hands those in
  front of it to the node around it.

`Pattern.run` counts its nesting down, so it ends on every grammar.
-/
namespace Scaffold.Cpp

/-- A pattern over the rules `ρ` of a grammar. -/
inductive Pattern (ρ : Type) where
  /-- The given word, as a keyword. -/
  | word (text : String)
  /-- One of the given words, as a leaf of the kind. -/
  | oneOf (kind : Kind) (texts : List String)
  /-- Any word but the given ones, as a leaf of the kind. -/
  | name (kind : Kind) (reserved : List String)
  /-- The given punctuation, with nothing between its characters. -/
  | mark (text : String)
  /-- A directive with one of the given names. -/
  | directive (kind : Kind) (names : List String)
  /-- Any other directive. -/
  | otherDirective (kind : Kind) (names : List String)
  /-- A token of the class, as a leaf of the kind. -/
  | sort (kind : Kind) (sort : TokenClass)
  /-- A bracket with everything up to its partner. -/
  | group (opener closer : Char)
  | seq (parts : List (Pattern ρ))
  | alts (parts : List (Pattern ρ))
  | star (part : Pattern ρ)
  | rule (r : ρ)
  /-- The trees of the part under one node. -/
  | node (kind : Kind) (part : Pattern ρ)
  /-- The trees of the part under one node if their shape asks for one. -/
  | shaped (shape : List Tree → Option Kind) (part : Pattern ρ)
  /-- The last tree of the part plays the given role. -/
  | role (r : Role) (part : Pattern ρ)
  /-- Nothing, where the part matches. -/
  | ahead (part : Pattern ρ)
  /-- Nothing, where the part does not match. -/
  | without (part : Pattern ρ)
  /-- Nothing, where the bracket ahead has a partner. -/
  | closed (opener closer : Char)
  /-- Nothing, where a `<` ahead may open template arguments. -/
  | angles
  /-- Nothing, kept as an error. -/
  | missing
  /-- The base, and around it as often as possible one of the tails: the node
  of a tail holds what has been read so far, in the given role, and the tail. -/
  | grow (base : Pattern ρ) (r : Role) (tails : List (Kind × Pattern ρ))
  /-- Items up to a token on which `stop` matches or the end of the text. -/
  | items (item stop : Pattern ρ)

namespace Pattern

/-! ## 1. Tokens -/

/-- Splits the comments off the front of the tokens. -/
def splitComments : List Token → List Tree × List Token
  | [] => ([], [])
  | t :: ts =>
    if t.sort == .comment then
      let (a, b) := splitComments ts
      (.leaf .comment none t.lead t.text :: a, b)
    else ([], t :: ts)

/-- Takes the comments off the front and then one token that satisfies `p`,
as a leaf of the kind. -/
def token (kind : Kind) (p : Token → Bool) (ts : List Token) : Option (List Tree × List Token) :=
  match splitComments ts with
  | (cs, t :: ts) =>
    if p t then some (cs ++ [.leaf kind none t.lead t.text], ts) else none
  | (_, []) => none

/-- The tokens after those that spell the rest of a punctuation. -/
def markRest : List Char → List Token → Option (List Token)
  | [], ts => some ts
  | c :: cs, t :: ts =>
    if t.sort == .mark && t.lead.isEmpty && t.text == [c] then markRest cs ts else none
  | _ :: _, [] => none

/-- Takes a punctuation off the front, after comments. -/
def marks (text : List Char) (ts : List Token) : Option (List Tree × List Token) :=
  match text, splitComments ts with
  | c :: cs, (before, t :: ts) =>
    if t.sort == .mark && t.text == [c] then
      (markRest cs ts).map fun ts => (before ++ [.leaf .token none t.lead text], ts)
    else none
  | _, _ => none

/-- The tokens of a bracket, its opener read `depth + 1` times so far. -/
def groupRest (opener closer : Char) : Nat → List Token → Option (List Tree × List Token)
  | _, [] => none
  | depth, t :: ts =>
    let kind := if t.sort == .comment then Kind.comment else Kind.token
    let tree := Tree.leaf kind none t.lead t.text
    if t.sort == .mark && t.text == [closer] then
      match depth with
      | 0 => some ([tree], ts)
      | d + 1 => (groupRest opener closer d ts).map fun (a, b) => (tree :: a, b)
    else
      let depth := if t.sort == .mark && t.text == [opener] then depth + 1 else depth
      (groupRest opener closer depth ts).map fun (a, b) => (tree :: a, b)

/-- Takes a bracket with its contents off the front, after comments. -/
def bracket (opener closer : Char) (ts : List Token) : Option (List Tree × List Token) := do
  let (before, ts) ← marks [opener] ts
  let (inside, ts) ← groupRest opener closer 0 ts
  pure (before ++ inside, ts)

/-- Whether a `<` read just before may open template arguments: its partner
comes before the statement or the surrounding bracket ends. -/
def closesAngle (parens angles : Nat) : List Token → Bool
  | [] => false
  | t :: ts =>
    if t.sort == .mark then
      match t.text with
      | ['('] | ['['] | ['{'] => closesAngle (parens + 1) angles ts
      | [')'] | [']'] | ['}'] =>
        match parens with
        | 0 => false
        | p + 1 => closesAngle p angles ts
      | [';'] => if parens == 0 then false else closesAngle parens angles ts
      | ['<'] => closesAngle parens (if parens == 0 then angles + 1 else angles) ts
      | ['>'] =>
        if parens == 0 then
          match angles with
          | 0 => true
          | a + 1 => closesAngle parens a ts
        else closesAngle parens angles ts
      | _ => closesAngle parens angles ts
    else closesAngle parens angles ts

/-- Gives the last tree a role. -/
def roleLast (r : Role) : List Tree → List Tree
  | [] => []
  | [t] => [t.withRole r]
  | t :: ts => t :: roleLast r ts

/-- Splits the last tree off. -/
def splitLast : List Tree → List Tree × List Tree
  | [] => ([], [])
  | [t] => ([], [t])
  | t :: ts =>
    let (a, b) := splitLast ts
    (t :: a, b)

/-- The first token, after comments, as an error. -/
def wrong (ts : List Token) : Option (List Tree × List Token) :=
  token .error (fun _ => true) ts

/-! ## 2. Matching -/

variable {ρ : Type}

mutual

/-- Matches a pattern: the trees it makes and the tokens it leaves. The
number bounds how deep patterns may nest. -/
def run (grammar : ρ → Pattern ρ) :
    Nat → Pattern ρ → List Token → Option (List Tree × List Token)
  | 0, _, _ => none
  | n + 1, p, ts =>
    match p with
    | word text => token .token (fun t => t.sort == .word && t.text == text.toList) ts
    | oneOf kind texts =>
      token kind (fun t => t.sort == .word && texts.contains (String.ofList t.text)) ts
    | name kind reserved =>
      token kind (fun t => t.sort == .word && !reserved.contains (String.ofList t.text)) ts
    | mark text => marks text.toList ts
    | directive kind names =>
      token kind (fun t =>
        match t.sort with
        | .directive label => names.contains (String.ofList label)
        | _ => false) ts
    | otherDirective kind names =>
      token kind (fun t =>
        match t.sort with
        | .directive label => !names.contains (String.ofList label)
        | _ => false) ts
    | sort kind wanted => token kind (fun t => t.sort == wanted) ts
    | group opener closer => bracket opener closer ts
    | seq [] => some ([], ts)
    | seq (p :: ps) => do
      let (a, ts) ← run grammar n p ts
      let (b, ts) ← run grammar n (seq ps) ts
      pure (a ++ b, ts)
    | alts [] => none
    | alts (p :: ps) =>
      match run grammar n p ts with
      | some r => some r
      | none => run grammar n (alts ps) ts
    | star p =>
      match run grammar n p ts with
      | none => some ([], ts)
      | some (a, rest) =>
        match run grammar n (star p) rest with
        | some (b, rest) => some (a ++ b, rest)
        | none => none
    | rule r => run grammar n (grammar r) ts
    | node kind p =>
      let (before, ts) := splitComments ts
      (run grammar n p ts).map fun (a, ts) => (before ++ [.node kind none a], ts)
    | shaped shape p =>
      let (before, ts) := splitComments ts
      (run grammar n p ts).map fun (a, ts) =>
        match shape a with
        | some kind => (before ++ [.node kind none a], ts)
        | none => (before ++ a, ts)
    | role r p => (run grammar n p ts).map fun (a, ts) => (roleLast r a, ts)
    | ahead p => (run grammar n p ts).map fun _ => ([], ts)
    | without p =>
      match run grammar n p ts with
      | some _ => none
      | none => some ([], ts)
    | closed opener closer => (bracket opener closer ts).map fun _ => ([], ts)
    | angles =>
      match marks ['<'] ts with
      | some (_, rest) => if closesAngle 0 0 rest then some ([], ts) else none
      | none => none
    | missing => some ([.leaf .error none [] []], ts)
    | grow base r tails =>
      match run grammar n base ts with
      | none => none
      | some (a, rest) =>
        match extend grammar n r tails a rest with
        | none => some (a, rest)
        | some result => some result
    | items item stop =>
      match run grammar n stop ts with
      | some _ => some ([], ts)
      | none =>
        match (run grammar n item ts).or (wrong ts) with
        | none => some (splitComments ts)
        | some (a, rest) =>
          match run grammar n (items item stop) rest with
          | some (b, rest) => some (a ++ b, rest)
          | none => none

/-- Puts tails around what has been read, as long as one matches. -/
def extend (grammar : ρ → Pattern ρ) :
    Nat → Role → List (Kind × Pattern ρ) → List Tree → List Token →
      Option (List Tree × List Token)
  | 0, _, _, _, _ => none
  | n + 1, r, tails, a, ts =>
    match step grammar n r tails a ts with
    | none => none
    | some (a, rest) =>
      match extend grammar n r tails a rest with
      | none => some (a, rest)
      | some result => some result

/-- Puts the first tail that matches around what has been read. -/
def step (grammar : ρ → Pattern ρ) :
    Nat → Role → List (Kind × Pattern ρ) → List Tree → List Token →
      Option (List Tree × List Token)
  | 0, _, _, _, _ => none
  | _ + 1, _, [], _, _ => none
  | n + 1, r, (kind, p) :: tails, a, ts =>
    match run grammar n p ts with
    | none => step grammar n r tails a ts
    | some (b, rest) =>
      let (before, last) := splitLast a
      some (before ++ [.node kind none (roleLast r last ++ b)], rest)

end

end Pattern

end Scaffold.Cpp
