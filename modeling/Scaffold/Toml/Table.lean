/-!
# Settings files: tables

What a settings file in the TOML format says: a table of named values, built
statement by statement.

* `Value` and `Table` -- the values; a table remembers how it came to be,
  since that decides who may still add to it;
* `Statement` -- an assignment, or the header of a table;
* `assemble` -- the table that a list of statements builds. **No name is ever
  set twice**, and nothing is added to a value that is complete.
-/
namespace Scaffold.Toml

/-! ## 1. Values -/

/-- How a table came to be. -/
inductive Origin where
  /-- By a header of its own. -/
  | header
  /-- On the way to a table with a header. -/
  | passed
  /-- On the way to an assigned name. -/
  | dotted
  /-- As a value, which is complete. -/
  | inline
  deriving DecidableEq, Repr

/-- A value of a settings file. Of numbers, truth values and dates no more is
kept than that they are there. -/
inductive Value where
  | text (s : String)
  | number
  | truth
  | date
  | array (items : List Value)
  /-- An array that is built header by header. -/
  | tables (items : List Value)
  | table (origin : Origin) (fields : List (String × Value))
  deriving Repr

/-- The named values of a table. -/
structure Table where
  origin : Origin
  fields : List (String × Value)
  deriving Repr

namespace Table

/-- The value of a name. -/
def get? (t : Table) (name : String) : Option Value := t.fields.lookup name

/-- The table as a value. -/
def value (t : Table) : Value := .table t.origin t.fields

/-- The fields with a value in place of the old one, or at the end. -/
def putField (name : String) (v : Value) : List (String × Value) → List (String × Value)
  | [] => [(name, v)]
  | (k, w) :: rest => if k == name then (name, v) :: rest else (k, w) :: putField name v rest

/-- The table with a value in place of the old one, or at the end. -/
def put (t : Table) (name : String) (v : Value) : Table :=
  ⟨t.origin, putField name v t.fields⟩

/-! ## 2. Building tables -/

/-- Changes the table at a path, making tables on the way. Assignments go only
through tables that no header made. -/
def change (dotted : Bool) (f : Table → Option Table) : List String → Table → Option Table
  | [], t => f t
  | k :: ks, t =>
    match t.get? k with
    | none => (change dotted f ks ⟨if dotted then .dotted else .passed, []⟩).map fun u =>
        t.put k u.value
    | some (.table origin fields) =>
      if origin == .inline || (dotted && origin == .header) then none
      else (change dotted f ks ⟨origin, fields⟩).map fun u => t.put k u.value
    | some (.tables items) =>
      match items.getLast? with
      | some (.table origin fields) =>
        (change dotted f ks ⟨origin, fields⟩).map fun u =>
          t.put k (.tables (items.dropLast ++ [u.value]))
      | _ => none
    | some _ => none

/-- Gives a new name a value. Behind a dot, only a table made by dots takes
new names. -/
def assign (behindDot : Bool) (name : String) (v : Value) (t : Table) : Option Table :=
  if (behindDot && t.origin != .dotted) || (t.get? name).isSome then none
  else some (t.put name v)

/-- Gives the name at a path a value. -/
def assignAt (path : List String) (v : Value) (t : Table) : Option Table := do
  let name ← path.getLast?
  t.change true (assign (path.length != 1) name v) path.dropLast

/-- Begins a table with a header. -/
def begin (name : String) (t : Table) : Option Table :=
  match t.get? name with
  | none => some (t.put name (.table .header []))
  | some (.table .passed fields) => some (t.put name (.table .header fields))
  | some _ => none

/-- Begins one more table of an array. -/
def beginItem (name : String) (t : Table) : Option Table :=
  match t.get? name with
  | none => some (t.put name (.tables [.table .header []]))
  | some (.tables items) => some (t.put name (.tables (items ++ [.table .header []])))
  | some _ => none

end Table

/-! ## 3. Statements -/

/-- A statement of a settings file. -/
inductive Statement where
  | assign (path : List String) (v : Value)
  | table (path : List String)
  | item (path : List String)
  deriving Repr

/-- The table after a statement, when the assignments before it went to the
table at `here`; and where those after it go. -/
def execute (here : List String) (t : Table) : Statement → Option (List String × Table)
  | .assign path v => (t.change false (Table.assignAt path v) here).map fun t => (here, t)
  | .table path => do
    let name ← path.getLast?
    let t ← t.change false (Table.begin name) path.dropLast
    pure (path, t)
  | .item path => do
    let name ← path.getLast?
    let t ← t.change false (Table.beginItem name) path.dropLast
    pure (path, t)

/-- The table after the statements. -/
def assembleFrom (here : List String) (t : Table) : List Statement → Option Table
  | [] => some t
  | s :: ss =>
    match execute here t s with
    | some (here, t) => assembleFrom here t ss
    | none => none

/-- The table that the statements build; none when they contradict. -/
def assemble (ss : List Statement) : Option Table := assembleFrom [] ⟨.header, []⟩ ss

end Scaffold.Toml
