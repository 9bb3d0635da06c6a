import Scaffold.Job

/-!
# Disks

A disk as a value: which files, directories and links there are, and where.

* `Disk.find?` -- what there is at a location: **the view** of a disk;
* `Disk.resolve` -- the location a path leads to, links followed;
* `Disk.answer` -- what a disk answers a request, and the disk after it;
* `Job.run` -- a job on a disk.
-/
namespace Scaffold

/-- Where something is: the names from the root of the disk down. -/
abbrev Location := List String

/-- Something on a disk. -/
inductive Entry where
  | file (content : Content)
  | directory
  | link (target : Path)
  deriving DecidableEq, Repr

/-- What an entry is. -/
def Entry.kind : Entry → EntryKind
  | .file _ => .file
  | .directory => .directory
  | .link _ => .link

/-- What there is on a disk. The root is always a directory. -/
structure Disk where
  entries : List (Location × Entry)
  deriving DecidableEq, Repr

namespace Disk

/-! ## 1. Entries -/

/-- The disk with nothing on it. -/
def empty : Disk := ⟨[]⟩

/-- What there is at a location. -/
def find? (d : Disk) (l : Location) : Option Entry :=
  if l.isEmpty then some .directory else d.entries.lookup l

/-- The disk with an entry in place of an old one, or a new one. -/
def put (d : Disk) (l : Location) (e : Entry) : Disk :=
  ⟨(d.entries.filter fun x => x.1 != l) ++ [(l, e)]⟩

/-- The disk without a location and what lies below it. -/
def erase (d : Disk) (l : Location) : Disk :=
  ⟨d.entries.filter fun x => !l.isPrefixOf x.1⟩

/-- The names right inside a location, and what they are. -/
def children (d : Disk) (l : Location) : List (String × EntryKind) :=
  d.entries.filterMap fun x =>
    match x.1.getLast? with
    | some name => if x.1.dropLast == l then some (name, x.2.kind) else none
    | none => none

/-! ## 2. Paths -/

/-- Where a path leads. -/
inductive Place where
  /-- There is something. -/
  | found (l : Location)
  /-- There is nothing, but the directory it would be in is there. -/
  | missing (directory : Location) (name : String)
  /-- The same behind a path that ends in a slash: only a directory can be made
  there. -/
  | missingSlash (directory : Location) (name : String)
  deriving DecidableEq, Repr

/-- How many links may be followed on the way. -/
def mostLinks : Nat := 40

/-- Where segments lead from a location, when `onLink` tells where the target
of a link and what follows the link lead. A link at the end is followed if
asked for. -/
def walkFrom (d : Disk) (follows : Bool) (onLink : Location → List String → Except Fault Place) :
    Location → List String → Except Fault Place
  | here, [] => .ok (.found here)
  | here, s :: rest =>
    if d.find? here != some .directory then .error .notDirectory
    else if Path.idle s then walkFrom d follows onLink here rest
    else if s == ".." then walkFrom d follows onLink here.dropLast rest
    else
      match d.find? (here ++ [s]) with
      | none =>
        if rest.isEmpty then .ok (.missing here s)
        else if rest.all (· == "") then .ok (.missingSlash here s)
        else .error .notFound
      | some (.link target) =>
        if rest.isEmpty && !follows then .ok (.found (here ++ [s]))
        else onLink (if target.rooted then [] else here) (target.segments ++ rest)
      | some _ => walkFrom d follows onLink (here ++ [s]) rest

/-- Where the segments of a path lead from a location, when so many links may
be followed on the way. -/
def resolveFrom (d : Disk) (follows : Bool) :
    Nat → Location → List String → Except Fault Place
  | 0 => walkFrom d follows fun _ _ => .error .tooManyLinks
  | links + 1 => walkFrom d follows (resolveFrom d follows links)

/-- Where a path leads. A path that is not rooted begins at the root all the
same, and a path without a text leads nowhere. -/
def resolve (d : Disk) (follows : Bool) (p : Path) : Except Fault Place :=
  if p.text.isEmpty then .error .notFound
  else resolveFrom d follows mostLinks [] p.segments

/-- The location of what there is at a path. -/
def locate (d : Disk) (follows : Bool) (p : Path) : Except Fault Location :=
  match d.resolve follows p with
  | .ok (.found l) => .ok l
  | .ok (.missing ..) | .ok (.missingSlash ..) => .error .notFound
  | .error f => .error f

/-- What there is at a path. -/
def kindAt (d : Disk) (follows : Bool) (p : Path) : Option EntryKind :=
  match d.locate follows p with
  | .ok l => (d.find? l).map Entry.kind
  | .error _ => none

/-- The path of a location. -/
def pathOf (l : Location) : Path := ⟨true, l⟩

/-! ## 3. Reading and writing -/

/-- What a file holds. -/
def readAt (d : Disk) (p : Path) : Except Fault Content :=
  match d.locate true p with
  | .error f => .error f
  | .ok l =>
    match d.find? l with
    | some (.file c) => .ok c
    | some .directory => .error .isDirectory
    | _ => .error .notFound

/-- The names in a directory. -/
def listAt (d : Disk) (p : Path) : Except Fault (List (String × EntryKind)) :=
  match d.locate true p with
  | .error f => .error f
  | .ok l =>
    match d.find? l with
    | some .directory => .ok (d.children l)
    | _ => .error .notDirectory

/-- The disk with a file that holds what `content` makes of what it held. -/
def changeAt (d : Disk) (p : Path) (content : Option Content → Content) : Except Fault Disk :=
  match d.resolve true p with
  | .error f => .error f
  | .ok (.missing l name) => .ok (d.put (l ++ [name]) (.file (content none)))
  | .ok (.missingSlash ..) => .error .isDirectory
  | .ok (.found l) =>
    match d.find? l with
    | some (.file c) => .ok (d.put l (.file (content (some c))))
    | some .directory => .error .isDirectory
    | _ => .error .notFound

/-- The disk with one more directory, whose parent is there. -/
def makeDir (d : Disk) (p : Path) : Except Fault Disk :=
  match d.resolve false p with
  | .error f => .error f
  | .ok (.found _) => .error .alreadyExists
  | .ok (.missing l name) | .ok (.missingSlash l name) => .ok (d.put (l ++ [name]) .directory)

/-- The result of making a directory, where one that is there will do. -/
def orThere (d : Disk) (p : Path) : Except Fault Disk → Except Fault Unit × Disk
  | .ok d => (.ok (), d)
  | .error f => if d.kindAt true p == some .directory then (.ok (), d) else (.error f, d)

/-- Makes a directory and, where they are missing, those above it. -/
def makeDirs (d : Disk) (p : Path) : Except Fault Unit × Disk :=
  match d.makeDir p with
  | .error .notFound =>
    match _h : p.parent? with
    | none => (.error .notFound, d)
    | some q =>
      match makeDirs d q with
      | (.error f, d) => (.error f, d)
      | (.ok _, d) => d.orThere p (d.makeDir p)
  | result => d.orThere p result
termination_by p.segments.length
decreasing_by exact Path.length_parent?_lt _h

/-- The disk after a change, or the old one and why there was none. -/
def settle (d : Disk) : Except Fault Disk → Except Fault Unit × Disk
  | .ok d => (.ok (), d)
  | .error f => (.error f, d)

/-- What a disk answers, and the disk afterwards. -/
def answer (d : Disk) : (q : Request) → q.Reply × Disk
  | .kind p => (d.kindAt true p, d)
  | .ownKind p => (d.kindAt false p, d)
  | .canonical p =>
    (match d.locate true p with
      | .ok l => some (pathOf l)
      | .error _ => none, d)
  | .list p => (d.listAt p, d)
  | .read p => (d.readAt p, d)
  | .write p text => d.settle (d.changeAt p fun _ => .text text)
  | .append p text =>
    d.settle (d.changeAt p fun old => (old.getD (.text "")).append text)
  | .makeDirs p => d.makeDirs p

end Disk

/-! ## 4. Running jobs -/

/-- What a job came to: its value or its failure, what it reported, and the
disk it left. -/
structure Ended (α : Type) where
  value : Except Failure α
  report : Report
  disk : Disk

/-- Runs a job on a disk, after what has been reported before. -/
def Job.runFrom {α : Type} (d : Disk) (before : Report) : Job α → Ended α
  | .done a => ⟨.ok a, before, d⟩
  | .fail e => ⟨.error e, before, d⟩
  | .note r next => next.runFrom d (before.add r)
  | .ask q next => (next (d.answer q).1).runFrom (d.answer q).2 before

/-- Runs a job on a disk. -/
def Job.run {α : Type} (t : Job α) (d : Disk) : Ended α := t.runFrom d Report.empty

end Scaffold
