import CompletionCheck.Lsp.Position
import CompletionCheck.Text.Utf8

/-!
# Places by a table of lines

Walking over a text from its beginning finds every place, and that is how `Position.ofOffset` and
`Position.toOffset` say what a place is.  With a table of the bytes at which lines begin only one
line has to be walked: the line of a byte is found by halving the table, and the line of a position
is looked up in it.

What the walk cannot do wrong, the table can.  It may be asked for a line that it does not have, a
text may be cut where no character begins, and the byte before the beginning may be asked for.  Each
of these is a `Fault`, and every step that could run into one says so in its type.
-/

namespace CompletionCheck.Lsp

inductive LineTable.Fault
  /-- An entry of the table or a stretch of the text that does not exist. -/
  | outOfRange
  /-- A cut through the bytes of one character. -/
  | splitCharacter
  /-- A number below zero. -/
  | underflow
deriving DecidableEq, Repr

/-- A text and the bytes at which its lines begin. -/
structure LineTable where
  text : List Char
  starts : Array Nat

namespace LineTable

/-- The bytes behind the line feeds of a text whose bytes stand from byte `start` on. -/
def startsFrom (start : Nat) : List UInt8 → List Nat
  | [] => []
  | b :: bytes =>
    if b = 10 then (start + 1) :: startsFrom (start + 1) bytes else startsFrom (start + 1) bytes

def ofText (text : List Char) : LineTable where
  text := text
  starts := (0 :: startsFrom 0 (Text.encode text)).toArray

/-! ## Steps that can fail -/

def before : Nat → Except Fault Nat
  | 0 => .error .underflow
  | n + 1 => .ok n

def dropBytes : Nat → List Char → Except Fault (List Char)
  | 0, cs => .ok cs
  | _ + 1, [] => .error .outOfRange
  | n + 1, c :: cs =>
    if c.utf8Size ≤ n + 1 then dropBytes (n + 1 - c.utf8Size) cs else .error .splitCharacter

def takeBytes : Nat → List Char → Except Fault (List Char)
  | 0, _ => .ok []
  | _ + 1, [] => .error .outOfRange
  | n + 1, c :: cs =>
    if c.utf8Size ≤ n + 1 then (c :: ·) <$> takeBytes (n + 1 - c.utf8Size) cs
    else .error .splitCharacter

theorem dropBytes_cons (c : Char) (cs : List Char) (n : Nat) :
    dropBytes (c.utf8Size + n) (c :: cs) = dropBytes n cs := by
  have hpos := c.utf8Size_pos
  obtain ⟨m, hm⟩ : ∃ m, c.utf8Size + n = m + 1 := Nat.exists_eq_succ_of_ne_zero (by omega)
  rw [hm, dropBytes, if_pos (by omega), ← hm, Nat.add_sub_cancel_left]

theorem takeBytes_cons (c : Char) (cs : List Char) (n : Nat) :
    takeBytes (c.utf8Size + n) (c :: cs) = (c :: ·) <$> takeBytes n cs := by
  have hpos := c.utf8Size_pos
  obtain ⟨m, hm⟩ : ∃ m, c.utf8Size + n = m + 1 := Nat.exists_eq_succ_of_ne_zero (by omega)
  rw [hm, takeBytes, if_pos (by omega), ← hm, Nat.add_sub_cancel_left]

/-- The part of a text from byte `start` to byte `stop`. -/
def slice (text : List Char) (start stop : Nat) : Except Fault (List Char) :=
  if stop < start then .error .outOfRange
  else do
    let rest ← dropBytes start text
    takeBytes (stop - start) rest

def start (t : LineTable) (line : Nat) : Except Fault Nat :=
  match t.starts[line]? with
  | some byte => .ok byte
  | none => .error .outOfRange

/-! ## Looking for a byte -/

/-- Where a number stands in a list, or where it would have to be put. -/
inductive Place
  | found (i : Nat)
  | missing (i : Nat)
deriving DecidableEq, Repr

/-- Halves a stretch of `size` entries from `base` on until one is left: the upper half stays when
it begins with nothing above the number that is looked for, and the lower half otherwise. -/
def narrow (entries : Array Nat) (number base size : Nat) (nonempty : 0 < size)
    (fits : base + size ≤ entries.size) : Fin entries.size :=
  if single : size = 1 then ⟨base, by omega⟩
  else if number < entries[base + size / 2] then
    narrow entries number base (size - size / 2) (by omega) (by omega)
  else
    narrow entries number (base + size / 2) (size - size / 2) (by omega) (by omega)
termination_by size

def search (entries : Array Nat) (number : Nat) : Place :=
  if nonempty : 0 < entries.size then
    let i := narrow entries number 0 entries.size nonempty (by omega)
    if entries[i] = number then .found i
    else if entries[i] < number then .missing (i + 1)
    else .missing i
  else .missing 0

def lineOf (t : LineTable) (offset : Nat) : Except Fault Nat :=
  match search t.starts offset with
  | .found line => .ok line
  | .missing next => before next

/-! ## Conversions -/

/-- The units of the characters that begin before byte `offset`, in a text that begins at byte
`start`. -/
def unitsBefore (offset start : Nat) : List Char → Nat
  | [] => 0
  | c :: cs =>
    if start < offset then Position.units c + unitsBefore offset (start + c.utf8Size) cs else 0

def word (n : Nat) : Nat := n % 0x100000000

def position (t : LineTable) (offset : Nat) : Except Fault Position := do
  let offset := min offset (Text.byteLength t.text)
  let line ← t.lineOf offset
  let start ← t.start line
  let rest ← slice t.text start (Text.byteLength t.text)
  return ⟨word line, word (unitsBefore offset start rest)⟩

/-- The byte of column `character` in a line from byte `start` to byte `stop`, of which `units`
units have been passed. -/
def byteOfColumn (character units start stop : Nat) : List Char → Nat
  | [] => stop
  | c :: cs =>
    if character ≤ units then start
    else byteOfColumn character (units + Position.units c) (start + c.utf8Size) stop cs

/-- The byte at which a line ends, before its line feed. -/
def stop (t : LineTable) (line : Nat) : Except Fault Nat :=
  match t.starts[line + 1]? with
  | some next => before next
  | none => .ok (Text.byteLength t.text)

def offset (t : LineTable) (p : Position) : Except Fault Nat :=
  match t.starts[p.line]? with
  | none => .ok (Text.byteLength t.text)
  | some start => do
    let stop ← t.stop p.line
    let line ← slice t.text start stop
    return byteOfColumn p.character 0 start stop line

end LineTable

end CompletionCheck.Lsp
