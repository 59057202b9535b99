import CompletionCheck.Json.Parser

/-!
# Texts in TOML

The four kinds of string, bare keys, blanks and comments.  Line ends are line feeds here: a
document's pairs of carriage return and line feed are joined before it is read, and no carriage
return that is left is allowed anywhere.

Each reader takes the text that is left and gives what it has read with the text after it.
-/

namespace CompletionCheck.Toml

/-- A blank within a line. -/
def isGap (c : Char) : Bool :=
  c = ' ' || c = '\t'

/-- A character of a line: no control character except the tab. -/
def isLineChar (c : Char) : Bool :=
  c = '\t' || (0x20 ≤ c.toNat && c.toNat ≠ 0x7f)

def skipGaps (cs : List Char) : List Char :=
  cs.dropWhile isGap

/-- The text without the comment at its beginning, if it begins with one. -/
def skipComment (cs : List Char) : List Char :=
  match cs with
  | c :: rest => if c = '#' then rest.dropWhile isLineChar else cs
  | [] => []

/-- Reads what may follow on a line: blanks, a comment and the end of the line. -/
def endOfLine? (cs : List Char) : Option (List Char) :=
  match skipComment (skipGaps cs) with
  | [] => some []
  | c :: rest => if c = '\n' then some rest else none

/-- The character that a backslash and a letter stand for. -/
def shortEscape? (c : Char) : Option Char :=
  if c = '"' || c = '\\' then some c
  else if c = 'b' then some '\x08'
  else if c = 't' then some '\t'
  else if c = 'n' then some '\n'
  else if c = 'f' then some '\x0c'
  else if c = 'r' then some '\r'
  else none

/-- Where the reading of a string with escapes is. -/
inductive StringState
  | plain
  /-- After a backslash. -/
  | escape
  /-- In a code point of which `left + 1` digits are missing. -/
  | code (left value : Nat)
  /-- In blanks that do not count, of which `left + 1` are missing. -/
  | skip (left : Nat)
deriving DecidableEq, Repr

def charOfCode? (n : Nat) : Option Char :=
  if n < 0xd800 ∨ (0xdfff < n ∧ n ≤ 0x10ffff) then some (Char.ofNat n) else none

/-- How many double or single quotes a text begins with. -/
def quoteRun (quote : Char) (cs : List Char) : Nat :=
  (cs.takeWhile (· = quote)).length

/-- The length of the blanks over which a backslash at the end of a line carries. -/
def lineJoin? (cs : List Char) : Option Nat :=
  let afterGaps := skipGaps cs
  match afterGaps with
  | c :: _ => if c = '\n' then some (cs.takeWhile fun c => isGap c || c = '\n').length else none
  | [] => none

/-- Reads a string with escapes whose opening quotes were read; `acc` holds its characters so far,
the last one first.  A string over several lines ends at three quotes, of a longer run at the last
three. -/
def readBasic (multiline : Bool) : StringState → List Char → List Char → Option (String × List Char)
  | _, _, [] => none
  | state, acc, c :: rest =>
    match state with
    | .plain =>
      if c = '"' then
        if multiline then
          let run := quoteRun '"' (c :: rest)
          if run < 3 then readBasic multiline .plain (c :: acc) rest
          else
            let extra := min (run - 3) 2
            some (String.ofList (List.replicate extra '"' ++ acc).reverse, rest.drop (extra + 2))
        else some (String.ofList acc.reverse, rest)
      else if c = '\\' then
        match if multiline then lineJoin? rest else none with
        | some (n + 1) => readBasic multiline (.skip n) acc rest
        | _ => readBasic multiline .escape acc rest
      else if isLineChar c || (multiline && c = '\n') then
        readBasic multiline .plain (c :: acc) rest
      else none
    | .escape =>
      if c = 'u' then readBasic multiline (.code 3 0) acc rest
      else if c = 'U' then readBasic multiline (.code 7 0) acc rest
      else
        match shortEscape? c with
        | some d => readBasic multiline .plain (d :: acc) rest
        | none => none
    | .code left value =>
      match Json.hexDigit? c with
      | none => none
      | some d =>
        let value := value * 16 + d
        match left with
        | 0 =>
          match charOfCode? value with
          | some d => readBasic multiline .plain (d :: acc) rest
          | none => none
        | left + 1 => readBasic multiline (.code left value) acc rest
    | .skip left =>
      match left with
      | 0 => readBasic multiline .plain acc rest
      | left + 1 => readBasic multiline (.skip left) acc rest

/-- Reads a string without escapes whose opening quotes were read. -/
def readLiteral (multiline : Bool) (acc : List Char) : List Char → Option (String × List Char)
  | [] => none
  | c :: rest =>
    if c = '\x27' then
      if multiline then
        let run := quoteRun '\x27' (c :: rest)
        if run < 3 then readLiteral multiline (c :: acc) rest
        else
          let extra := min (run - 3) 2
          some (String.ofList (List.replicate extra '\x27' ++ acc).reverse, rest.drop (extra + 2))
      else some (String.ofList acc.reverse, rest)
    else if isLineChar c || (multiline && c = '\n') then readLiteral multiline (c :: acc) rest
    else none

def skipLineFeed (cs : List Char) : List Char :=
  match cs with
  | c :: rest => if c = '\n' then rest else cs
  | [] => []

def readString (cs : List Char) : Option (String × List Char) :=
  match cs with
  | [] => none
  | c :: rest =>
    let tripled := 3 ≤ quoteRun c cs
    if c = '"' then
      if tripled then readBasic true .plain [] (skipLineFeed (rest.drop 2))
      else readBasic false .plain [] rest
    else if c = '\x27' then
      if tripled then readLiteral true [] (skipLineFeed (rest.drop 2))
      else readLiteral false [] rest
    else none

/-! ## Keys -/

def isBareChar (c : Char) : Bool :=
  c.isAlphanum || c = '-' || c = '_'

/-- Reads one key; quotes make it a string on one line. -/
def readSimpleKey (cs : List Char) : Option (String × List Char) :=
  match cs with
  | [] => none
  | c :: rest =>
    if c = '"' then readBasic false .plain [] rest
    else if c = '\x27' then readLiteral false [] rest
    else
      match cs.span isBareChar with
      | ([], _) => none
      | (key, rest) => some (String.ofList key, rest)

/-- Reads keys with dots between them, at most `limit`, and the blanks around them. -/
def readKeys : Nat → List Char → Option (List String × List Char)
  | 0, _ => none
  | limit + 1, cs =>
    match readSimpleKey (skipGaps cs) with
    | none => none
    | some (key, rest) =>
      match skipGaps rest with
      | [] => some ([key], [])
      | c :: rest =>
        if c = '.' then (readKeys limit rest).map fun (keys, rest) => (key :: keys, rest)
        else some ([key], c :: rest)

/-- How deep keys and values may be nested. -/
def maxDepth : Nat := 79

def readKey (cs : List Char) : Option (List String × List Char) :=
  readKeys maxDepth cs

end CompletionCheck.Toml
