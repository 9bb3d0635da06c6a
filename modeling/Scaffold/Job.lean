import Scaffold.Disk.Content
import Scaffold.Failure
import Scaffold.Report

/-!
# Jobs

Work that looks at a disk, changes it, and reports what it did.

* `Request` -- a single thing that is asked of the disk, and `Reply` what the
  disk answers. A write is one request: **it happens wholly or not at all**;
* `Job` -- the work, as the tree of its requests: what is asked next may
  depend on the answer;
* whatever answers requests runs jobs. The pure disk does so in
  `Scaffold.Disk.State`, and the system's disk in the program itself.
-/
namespace Scaffold

/-! ## 1. Requests -/

/-- What an entry of a directory is. -/
inductive EntryKind where
  | file | directory | link
  deriving DecidableEq, Repr

/-- Something that is asked of the disk. -/
inductive Request where
  /-- What there is at a path, links followed. -/
  | kind (p : Path)
  /-- What there is at a path, when a link at its end is not followed. -/
  | ownKind (p : Path)
  /-- The absolute path, free of links and dots, to what there is at a path. -/
  | canonical (p : Path)
  /-- The names in a directory, in any order, and what they are, links not
  followed. -/
  | list (p : Path)
  | read (p : Path)
  /-- Writes a file, over an old one if there is one. -/
  | write (p : Path) (text : String)
  /-- Writes at the end of a file. -/
  | append (p : Path) (text : String)
  /-- Makes a directory and those above it. -/
  | makeDirs (p : Path)
  deriving DecidableEq, Repr

/-- What the disk answers. -/
def Request.Reply : Request → Type
  | .kind _ => Option EntryKind
  | .ownKind _ => Option EntryKind
  | .canonical _ => Option Path
  | .list _ => Except Fault (List (String × EntryKind))
  | .read _ => Except Fault Content
  | .write _ _ => Except Fault Unit
  | .append _ _ => Except Fault Unit
  | .makeDirs _ => Except Fault Unit

/-! ## 2. Jobs -/

/-- Work that ends in a value of the type, or fails. -/
inductive Job (α : Type) where
  | done (a : α)
  | fail (f : Failure)
  /-- Reports something and goes on. -/
  | note (r : Record) (next : Job α)
  /-- Asks the disk and goes on with its answer. -/
  | ask (q : Request) (next : q.Reply → Job α)

namespace Job

variable {α β : Type}

/-- One job after another. -/
def bind (t : Job α) (f : α → Job β) : Job β :=
  match t with
  | done a => f a
  | fail e => fail e
  | note r next => note r (next.bind f)
  | ask q next => ask q fun a => (next a).bind f

instance : Monad Job where
  pure := done
  bind := bind

/-- The job with what it comes to, a failure included, and what it reported.
It reports nothing itself and never fails. -/
def collect (t : Job α) (before : Report) : Job (Except Failure α × Report) :=
  match t with
  | done a => done (.ok a, before)
  | fail e => done (.error e, before)
  | note r next => next.collect (before.add r)
  | ask q next => ask q fun a => (next a).collect before

/-- The same job for every member of a list, in order. -/
def each (f : α → Job Unit) : List α → Job Unit
  | [] => done ()
  | a :: as => (f a).bind fun _ => each f as

/-- A value that may be a failure. -/
def ofExcept : Except Failure α → Job α
  | .ok a => done a
  | .error e => fail e

/-! ## 3. Single steps -/

/-- Reports an outcome. -/
def report (p : Path) (o : Outcome) (detail : Option String) : Job Unit :=
  note ⟨p, o, detail⟩ (done ())

/-- What there is at a path, links followed. -/
def kind (p : Path) : Job (Option EntryKind) := ask (.kind p) done

/-- What there is at a path, a link at its end not followed. -/
def ownKind (p : Path) : Job (Option EntryKind) := ask (.ownKind p) done

/-- There is something at the path. -/
def «exists» (p : Path) : Job Bool := ask (.kind p) fun k => done k.isSome

/-- There is a file at the path. -/
def isFile (p : Path) : Job Bool := ask (.kind p) fun (k : Option EntryKind) => done (k == some .file)

/-- There is a directory at the path. -/
def isDirectory (p : Path) : Job Bool :=
  ask (.kind p) fun (k : Option EntryKind) => done (k == some .directory)

/-- The canonical path; the path itself when there is nothing there. -/
def canonical (p : Path) : Job Path := ask (.canonical p) fun q => done (q.getD p)

/-- A refusal of the disk as a failure at the path. -/
def accept (p : Path) : Except Fault α → Job α
  | .ok a => done a
  | .error f => fail (.disk p f)

/-- The names in a directory, and what they are. -/
def list (p : Path) : Job (List (String × EntryKind)) := ask (.list p) (accept p)

/-- What a file holds. -/
def read (p : Path) : Job Content := ask (.read p) (accept p)

/-- What a file holds, if that is a text. -/
def asText : Except Fault Content → Except Fault String
  | .ok (.text t) => .ok t
  | .ok (.raw _) => .error .notText
  | .error f => .error f

/-- The text of a file, or why it cannot be read. -/
def tryText (p : Path) : Job (Except Fault String) := ask (.read p) fun a => done (asText a)

/-- The text of a file. -/
def text (p : Path) : Job String := ask (.read p) fun a => accept p (asText a)

/-- Writes a file. -/
def write (p : Path) (text : String) : Job Unit := ask (.write p text) (accept p)

/-- Writes at the end of a file. -/
def append (p : Path) (text : String) : Job Unit := ask (.append p text) (accept p)

/-- Makes a directory and those above it. -/
def makeDirs (p : Path) : Job Unit := ask (.makeDirs p) (accept p)

end Job

end Scaffold
