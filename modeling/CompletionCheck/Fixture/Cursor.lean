import CompletionCheck.Text.Utf8

/-!
# The place where completion is requested

A fixture line carries no mark for the cursor; it follows from the code before the comment.  After
a final dot the members of what stands before it are asked for, so the cursor is behind the dot.
In all other cases it stands at the start of the last character, inside the word to be completed.
Only plain spaces may follow; a tab is a last character like any other.
-/

namespace CompletionCheck.Fixture

/-- The cursor as a byte offset into the code; none when the code holds nothing but spaces. -/
def cursor? (code : List Char) : Option Nat :=
  match code.reverse.dropWhile (· = ' ') with
  | [] => none
  | last :: before =>
    if last = '.' then some (Text.byteLength before.reverse + 1)
    else some (Text.byteLength before.reverse)

end CompletionCheck.Fixture
