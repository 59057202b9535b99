/-!
# Places in a text

Fixtures count bytes from the beginning of the text; a language server counts lines and, within a
line, units of UTF-16.  Both ways of the conversion walk over the text once.

From a byte to a position, every character that begins before the byte counts, so a byte inside a
character gives the position after it, and a byte past the end gives the end.  Back, a column past
the end of its line gives the end of the line, a column inside a character gives the end of that
character, and a line that does not exist gives the end of the text.
-/

namespace CompletionCheck.Lsp

/-- A place by line and column, both counted from zero; the column counts units of UTF-16. -/
structure Position where
  line : Nat
  character : Nat
deriving DecidableEq, Repr

namespace Position

/-- Positions stand in the order of their lines, and in one line in that of their columns. -/
instance : LE Position :=
  ⟨fun p q => p.line < q.line ∨ (p.line = q.line ∧ p.character ≤ q.character)⟩

instance : LT Position :=
  ⟨fun p q => p.line < q.line ∨ (p.line = q.line ∧ p.character < q.character)⟩

theorem le_def {p q : Position} :
    p ≤ q ↔ p.line < q.line ∨ (p.line = q.line ∧ p.character ≤ q.character) :=
  Iff.rfl

theorem lt_def {p q : Position} :
    p < q ↔ p.line < q.line ∨ (p.line = q.line ∧ p.character < q.character) :=
  Iff.rfl

instance (p q : Position) : Decidable (p ≤ q) :=
  decidable_of_iff _ le_def.symm

instance (p q : Position) : Decidable (p < q) :=
  decidable_of_iff _ lt_def.symm

def units (c : Char) : Nat :=
  if c.toNat < 0x10000 then 1 else 2

/-- The position before a character's right neighbour, from the position before the character. -/
def after (p : Position) (c : Char) : Position :=
  if c = '\n' then ⟨p.line + 1, 0⟩ else ⟨p.line, p.character + units c⟩

/-- Walks from position `p` at byte `start` to byte `offset`. -/
def advance (offset : Nat) (p : Position) (start : Nat) : List Char → Position
  | [] => p
  | c :: cs =>
    if start < offset then advance offset (p.after c) (start + c.utf8Size) cs else p

def ofOffset (text : List Char) (offset : Nat) : Position :=
  advance offset ⟨0, 0⟩ 0 text

/-- The byte of column `character` in the line that begins here, where `column` units and `start`
bytes have been passed. -/
def seekColumn (character column start : Nat) : List Char → Nat
  | [] => start
  | c :: cs =>
    if character ≤ column || c = '\n' then start
    else seekColumn character (column + units c) (start + c.utf8Size) cs

/-- The byte of a position that is `line` lines further on. -/
def seek (line character start : Nat) : List Char → Nat
  | [] => start
  | c :: cs =>
    match line with
    | 0 => seekColumn character 0 start (c :: cs)
    | n + 1 => seek (if c = '\n' then n else n + 1) character (start + c.utf8Size) cs

def toOffset (text : List Char) (p : Position) : Nat :=
  seek p.line p.character 0 text

end Position

end CompletionCheck.Lsp
