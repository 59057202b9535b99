import CompletionCheck.IoKind
import CompletionCheck.Text.Utf8

/-!
# A tree of files

Everything that is asked of a file system, as a value: files, directories and links, each at its
place, and the working directory from which relative paths begin.  A place is the list of names
from the root; the root is a directory without an entry of its own.  Entries stand in the order in
which they were made, which is the order in which a directory lists them.

A path is followed name by name.  Every name but the last has to lead to a directory, a link is
followed where it stands, and the number of links followed is limited, so that links that lead to
each other end in an error.
-/

namespace CompletionCheck.Files

/-- A name of a file, as bytes. -/
abbrev FileName := List UInt8

inductive Node
  | file (content : List UInt8)
  | directory
  | link (target : List UInt8)
deriving DecidableEq, Repr

/-- A tree of files and the working directory.  A program begins with a tree that has no entries and
adds what it finds with `Tree.make`. -/
structure Tree where
  entries : List (List FileName × Node) := []
  cwd : List FileName := []
deriving DecidableEq, Repr

def slash : UInt8 := 47

/-- The name of the place itself. -/
def selfName : FileName := [46]

/-- The name of the place above. -/
def aboveName : FileName := [46, 46]

def splitPath (path : List UInt8) : List FileName :=
  path.splitOn slash

/-- Whether a name of a path says nothing about the place. -/
def isIdle (name : FileName) : Bool :=
  name.isEmpty || name == selfName

def fromRoot (path : List UInt8) : Bool :=
  path.head? == some slash

/-- How many links are followed on the way along a path. -/
def maxLinks : Nat := 40

def maxNameLength : Nat := 255

def maxPathLength : Nat := 4095

/-- Refuses the paths that are none, before anything is looked up. -/
def checkPath (path : List UInt8) : Except IoKind Unit :=
  if path.contains 0 then .error .invalidInput
  else if maxPathLength < path.length then .error .nameTooLong
  else .ok ()

namespace Tree

def find? (t : Tree) (place : List FileName) : Option Node :=
  if place.isEmpty then some .directory else t.entries.lookup place

/-- Follows names, and the links on the way, from a place.  The last name may be missing when
`fresh` says so; then the place is where its entry would stand. -/
def walk (t : Tree) (fresh : Bool) (links : Nat) (here : List FileName) (names : List FileName) :
    Except IoKind (List FileName) :=
  match names with
  | [] => .ok here
  | name :: rest =>
    if t.find? here ≠ some .directory then .error .notADirectory
    else if isIdle name then t.walk fresh links here rest
    else if name = aboveName then t.walk fresh links here.dropLast rest
    else if maxNameLength < name.length then .error .nameTooLong
    else
      match t.find? (here ++ [name]) with
      | none => if fresh && rest.isEmpty then .ok (here ++ [name]) else .error .notFound
      | some (.link target) =>
        match links with
        | 0 => .error .linkLoop
        | links + 1 =>
          t.walk fresh links (if fromRoot target then [] else here) (splitPath target ++ rest)
      | some _ => t.walk fresh links (here ++ [name]) rest
termination_by (links, names.length)

/-- Where the names of a path begin. -/
def start (t : Tree) (path : List UInt8) : List FileName :=
  if fromRoot path then [] else t.cwd

def resolve (t : Tree) (path : List UInt8) : Except IoKind (List FileName) := do
  checkPath path
  if path.isEmpty then .error .notFound
  else t.walk false maxLinks (t.start path) (splitPath path)

def pathBytes (path : String) : List UInt8 :=
  Text.encode path.toList

def readText (t : Tree) (path : String) : Except IoKind String := do
  let place ← t.resolve (pathBytes path)
  match t.find? place with
  | some (.file content) =>
    match Text.decode? content with
    | some cs => .ok (String.ofList cs)
    | none => .error .invalidData
  | some .directory => .error .isADirectory
  | _ => .error .notFound

def isFile (t : Tree) (path : String) : Bool :=
  match t.resolve (pathBytes path) with
  | .ok place =>
    match t.find? place with
    | some (.file _) => true
    | _ => false
  | .error _ => false

/-- The name of an entry, if it stands directly in the directory at a place. -/
def nameIn? (place entry : List FileName) : Option FileName :=
  match entry.getLast? with
  | some name => if entry.dropLast = place then some name else none
  | none => none

/-- The names in the directory at a path, with what stands there. -/
def list (t : Tree) (path : String) : Except IoKind (List (FileName × Node)) := do
  let place ← t.resolve (pathBytes path)
  match t.find? place with
  | some .directory =>
    .ok (t.entries.filterMap fun e => (nameIn? place e.1).map fun name => (name, e.2))
  | some (.file _) => .error .notADirectory
  | _ => .error .notFound

/-! ## Making entries -/

/-- Puts something at a place, instead of what stands there. -/
def put (t : Tree) (place : List FileName) (n : Node) : Tree :=
  if (t.entries.lookup place).isSome then
    { t with entries := t.entries.map fun e => if e.1 = place then (place, n) else e }
  else { t with entries := t.entries ++ [(place, n)] }

/-- Makes an entry at a place where there is none. -/
def putNew (t : Tree) (place : List FileName) (n : Node) : Tree :=
  if (t.find? place).isSome then t else t.put place n

/-- Makes the directories along names that are not there, up to a name that cannot be a
directory; gives the place of the last when all are there. -/
def makeDirectories (t : Tree) (here : List FileName) :
    List FileName → Tree × Option (List FileName)
  | [] => (t, some here)
  | name :: rest =>
    if isIdle name then t.makeDirectories here rest
    else if name = aboveName then t.makeDirectories here.dropLast rest
    else if maxNameLength < name.length then (t, none)
    else
      let t := t.putNew (here ++ [name]) .directory
      match t.walk false maxLinks here [name] with
      | .ok place =>
        if t.find? place = some .directory then t.makeDirectories place rest else (t, none)
      | .error _ => (t, none)

/-- Makes an entry of the given name in the directory at a place.  A file replaces the file that is
there, and is made where the links of that name lead to; nothing else is replaced. -/
def makeEntry (t : Tree) (above : List FileName) (name : FileName) (n : Node) : Tree :=
  if name = aboveName || maxNameLength < name.length then t
  else
    match n with
    | .directory => t.putNew (above ++ [name]) n
    | .link target =>
      if target.isEmpty || !(checkPath target).isOk then t
      else t.putNew (above ++ [name]) n
    | .file _ =>
      match t.walk true maxLinks above [name] with
      | .ok place => if t.find? place = some .directory then t else t.put place n
      | .error _ => t

/-- Makes an entry with the directories above it, as far as that can be done.  What a path has
after its last name belongs to no directory above: a slash there is for directories only, and the
name of the place itself makes nothing. -/
def make (t : Tree) (path : List UInt8) (n : Node) : Tree :=
  let (idle, rest) := (splitPath path).reverse.span isIdle
  match rest with
  | [] => t
  | name :: before =>
    let parents := before.reverse
    if !(checkPath ([slash].intercalate parents)).isOk then t
    else
      match t.makeDirectories (t.start path) parents with
      | (t, none) => t
      | (t, some above) =>
        let namesEntry := idle.isEmpty || n = .directory && !idle.contains selfName
        if namesEntry && (checkPath path).isOk then t.makeEntry above name n else t

end Tree

end CompletionCheck.Files
