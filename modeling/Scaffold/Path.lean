/-!
# Paths

A path is read lexically, without looking at any disk.

* `Path` keeps the text of a path as the segments between its slashes, so
  that nothing of the spelling is lost: `ofText` and `text` undo each other;
* `components` is the **view** that gives a path its meaning: repeated
  slashes, trailing slashes and inner dots do not count;
* `join` appends segments, and `parent?`, `fileName?`, `ancestors` and
  `startsWith` go by the components.
-/
namespace Scaffold

/-! ## 1. Texts and segments -/

/-- A path, as the segments its slashes separate. Segments may be empty: two
slashes in a row have an empty one between them. -/
structure Path where
  /-- The text begins with a slash; the segments are what follows it. -/
  rooted : Bool
  segments : List String
  deriving DecidableEq, Repr, Inhabited

namespace Path

/-- The pieces of a text between its slashes, given the (reversed) beginning
of the piece under way. -/
def piecesFrom (begun : List Char) : List Char → List String
  | [] => [String.ofList begun.reverse]
  | '/' :: cs => String.ofList begun.reverse :: piecesFrom [] cs
  | c :: cs => piecesFrom (c :: begun) cs

/-- The path with the given text. -/
def ofText (text : String) : Path :=
  match text.toList with
  | '/' :: cs => ⟨true, piecesFrom [] cs⟩
  | cs => ⟨false, piecesFrom [] cs⟩

/-- The text of a path. -/
def text (p : Path) : String :=
  (if p.rooted then "/" else "") ++ "/".intercalate p.segments

/-- The path with no text. -/
def empty : Path := ⟨false, []⟩

/-- The path of the file system's root. -/
def root : Path := ⟨true, []⟩

/-! ## 2. Components -/

/-- A step of a path. -/
inductive Component where
  /-- The slash at the beginning. -/
  | root
  /-- A dot at the beginning. -/
  | here
  /-- Two dots. -/
  | up
  /-- Anything else. -/
  | name (s : String)
  deriving DecidableEq, Repr

/-- How a step is written. -/
def Component.text : Component → String
  | .root => "/"
  | .here => "."
  | .up => ".."
  | .name s => s

/-- A segment that is no step of its own. -/
def idle (s : String) : Bool := s == "" || s == "."

/-- The step that a segment stands for. -/
def stepOf (s : String) : Component := if s == ".." then .up else .name s

/-- The path begins with a dot. -/
def beginsHere (p : Path) : Bool := !p.rooted && p.segments.head? == some "."

/-- The steps of a path. -/
def components (p : Path) : List Component :=
  (if p.rooted then [.root] else if p.beginsHere then [.here] else []) ++
    (p.segments.filter fun s => !idle s).map stepOf

/-- Both paths take the same steps. -/
def same (a b : Path) : Bool := a.components == b.components

/-- The path begins with the steps of another. -/
def startsWith (p q : Path) : Bool := q.components.isPrefixOf p.components

/-- The path ends with the steps of another. -/
def endsWith (p q : Path) : Bool := q.components.isSuffixOf p.components

/-- The texts of the steps, with something between them. -/
def spelled (separator : String) (p : Path) : String :=
  separator.intercalate (p.components.map Component.text)

/-! ## 3. Joining -/

/-- The segments without an empty last one, which a trailing slash leaves. -/
def openEnd (segments : List String) : List String :=
  if segments.getLast? == some "" then segments.dropLast else segments

/-- A path below another one. A rooted path stands for itself. -/
def join (p q : Path) : Path :=
  if q.rooted then q else ⟨p.rooted, openEnd p.segments ++ q.segments⟩

/-- The entry with a plain name below a path. -/
def child (p : Path) (name : String) : Path := p.join ⟨false, [name]⟩

/-- The path with one more step. -/
def step (p : Path) : Component → Path
  | .root => root
  | .here => p.child "."
  | .up => p.child ".."
  | .name s => p.child s

/-- The path with more steps. -/
def walk (p : Path) (steps : List Component) : Path := steps.foldl step p

/-! ## 4. Parents and names -/

/-- The path without what follows its last step. -/
def trimEnd (p : Path) : Path :=
  match (p.segments.reverse.dropWhile idle).reverse with
  | [] => ⟨p.rooted, if p.beginsHere then ["."] else []⟩
  | s :: ss => ⟨p.rooted, s :: ss⟩

/-- The path without its last step; none when there is no step, or only the
root. -/
def parent? (p : Path) : Option Path :=
  if p.trimEnd.segments.isEmpty then none
  else some (trimEnd ⟨p.rooted, p.trimEnd.segments.dropLast⟩)

/-- Trimming adds no segments. -/
theorem length_trimEnd_le (p : Path) : p.trimEnd.segments.length ≤ p.segments.length := by
  have h : (p.segments.reverse.dropWhile idle).reverse.length ≤ p.segments.length := by
    rw [List.length_reverse]
    exact Nat.le_trans (List.dropWhile_suffix idle).length_le (Nat.le_of_eq List.length_reverse)
  unfold trimEnd
  split
  · by_cases hb : p.beginsHere = true
    · rw [if_pos hb]
      cases hs : p.segments with
      | nil => simp [beginsHere, hs] at hb
      | cons s ss => simp
    · rw [if_neg hb]
      exact Nat.zero_le _
  · rename_i hs
    rw [hs] at h
    exact h

/-- A parent has fewer segments. -/
theorem length_parent?_lt {p q : Path} (h : p.parent? = some q) :
    q.segments.length < p.segments.length := by
  unfold parent? at h
  split at h
  · exact absurd h (by simp)
  · rename_i hne
    have hq : q = trimEnd ⟨p.rooted, p.trimEnd.segments.dropLast⟩ := by
      simpa using h.symm
    have h1 := length_trimEnd_le ⟨p.rooted, p.trimEnd.segments.dropLast⟩
    have h2 := length_trimEnd_le p
    have h3 : 0 < p.trimEnd.segments.length := by
      cases hs : p.trimEnd.segments with
      | nil => simp [hs] at hne
      | cons s ss => simp
    rw [hq]
    simp only [List.length_dropLast] at h1
    omega

/-- The path, its parent, the parent of that, and so on. -/
def ancestors (p : Path) : List Path :=
  p :: match _h : p.parent? with
    | none => []
    | some q => ancestors q
termination_by p.segments.length
decreasing_by exact length_parent?_lt _h

/-- The name of what the path leads to; none when it does not end in a name. -/
def fileName? (p : Path) : Option String :=
  match p.components.getLast? with
  | some (.name s) => some s
  | _ => none

/-- The path with another last name. -/
def withFileName (p : Path) (name : String) : Path :=
  match p.fileName? with
  | some _ => (p.parent?.getD p).join (ofText name)
  | none => p.join (ofText name)

/-- A name cut at its last dot; a dot that comes first does not cut. -/
def cutName (name : String) : String × Option String :=
  match name.toList.reverse.span (· != '.') with
  | (ext, '.' :: c :: cs) => (String.ofList (c :: cs).reverse, some (String.ofList ext.reverse))
  | _ => (name, none)

/-- The last name without its extension. -/
def fileStem? (p : Path) : Option String := p.fileName?.map fun n => (cutName n).1

/-- What follows the last dot of the last name. -/
def extension? (p : Path) : Option String := p.fileName?.bind fun n => (cutName n).2

/-- The extension of the path is one of the given ones. -/
def hasExtension (p : Path) (extensions : List String) : Bool :=
  match p.extension? with
  | some e => extensions.contains e
  | none => false

/-- The steps that follow those of a path at the beginning; none when the path
begins otherwise. -/
def stepsBelow? (p base : Path) : Option (List Component) :=
  if p.startsWith base then some (p.components.drop base.components.length) else none

end Path

end Scaffold
