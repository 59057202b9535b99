import CompletionCheck.Dialect
import CompletionCheck.Text.Blank
import CompletionCheck.Text.Find
import CompletionCheck.Text.Utf8

/-!
# The lines of a fixture

A fixture is cut at every line feed; a carriage return belongs to its line.  A line that holds the
dialect's comment marker is cut at the first one into code and payload.  Each line remembers its
number and the byte at which it begins, so that what is found in it can be placed in the fixture.
-/

namespace CompletionCheck.Fixture

/-- A line seen through a dialect. -/
inductive Line
  | plain
  | annotated (code payload : List Char)
deriving DecidableEq, Repr

/-- Cuts a line at the dialect's first comment marker. -/
def Line.scan (d : Dialect) (line : List Char) : Line :=
  match Text.cutAt? d.marker.toList line with
  | some (code, rest) => .annotated code (Text.trim rest)
  | none => .plain

/-- A line in its place: its number, counted from one, and the byte at which it begins. -/
structure PlacedLine where
  number : Nat
  start : Nat
  chars : List Char
deriving DecidableEq, Repr

def placeLines (number start : Nat) : List (List Char) → List PlacedLine
  | [] => []
  | line :: rest =>
    ⟨number, start, line⟩ :: placeLines (number + 1) (start + Text.byteLength line + 1) rest

def linesOf (text : List Char) : List PlacedLine :=
  placeLines 1 0 (text.splitOn '\n')

end CompletionCheck.Fixture
