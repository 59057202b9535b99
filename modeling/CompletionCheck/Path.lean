/-!
# Paths as texts

A path is a text in which `/` divides the names.  The functions here work on the text alone and
ask no file system: joining, the parent, and the extension of the last name.  Doubled slashes,
slashes at the end and the name `.` say nothing about the place, except for a `.` at the very
beginning of a relative path; `..` is a name like any other, but it has no extension.
-/

namespace CompletionCheck.Path

def isAbsolute (p : String) : Bool :=
  p.toList.head? == some '/'

/-- The path `p` seen from the directory `dir`; an absolute path is the same from everywhere. -/
def join (dir p : String) : String :=
  if isAbsolute p || dir.isEmpty then p
  else if dir.toList.getLast? == some '/' then dir ++ p
  else dir ++ "/" ++ p

theorem join_inj {dir p q : String} (hp : isAbsolute p = false) (hq : isAbsolute q = false)
    (h : join dir p = join dir q) : p = q := by
  unfold join at h
  simp only [hp, hq, Bool.false_or] at h
  split at h
  · exact h
  · split at h
    · exact (String.append_right_inj dir).1 h
    · exact (String.append_right_inj (dir ++ "/")).1 h

/-- The names between the slashes, the empty ones included. -/
def pieces (p : String) : List (List Char) :=
  p.toList.splitOn '/'

/-- Drops the pieces that say nothing from the front of a list in reverse order, in which the
first piece of the path stands last. -/
def dropIdle : List (List Char) → List (List Char)
  | [] => []
  | [first] => if first.isEmpty then [] else [first]
  | piece :: earlier =>
    if piece.isEmpty || piece == ['.'] then dropIdle earlier else piece :: earlier

/-- The names of a path that say something, in order. -/
def names (p : String) : List (List Char) :=
  match pieces p with
  | [] => []
  | first :: rest =>
    (if first.isEmpty then [] else [first]) ++
      rest.filter fun piece => !(piece.isEmpty || piece == ['.'])

/-- The path of the directory that holds the place; none for the root and for the empty path. -/
def parent? (p : String) : Option String :=
  match dropIdle (pieces p).reverse with
  | [] => none
  | _ :: earlier =>
    match dropIdle earlier with
    | [] => some (if isAbsolute p then "/" else "")
    | kept => some (String.ofList (['/'].intercalate kept.reverse))

/-- A path and the `n` nearest paths above it, if there are so many. -/
def upTo : Nat → String → List String
  | 0, p => [p]
  | n + 1, p =>
    p :: match parent? p with
      | some above => upTo n above
      | none => []

/-- A path and the paths above it, the nearest first.  Every parent has a shorter path, so none is
left out. -/
def upward (p : String) : List String :=
  upTo p.length p

/-- The last name of a path, unless it is one of the names that only point elsewhere. -/
def fileName? (p : String) : Option (List Char) :=
  match dropIdle (pieces p).reverse with
  | [] => none
  | name :: _ => if name == ['.'] || name == ['.', '.'] then none else some name

/-- What follows the last dot of the last name; a dot at its beginning does not count. -/
def extension? (p : String) : Option String :=
  (fileName? p).bind fun name =>
    match name.reverse.span (· ≠ '.') with
    | (_, []) => none
    | (_, [_]) => none
    | (reversed, _) => some (String.ofList reversed.reverse)

end CompletionCheck.Path
