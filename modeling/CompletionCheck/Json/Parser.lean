import CompletionCheck.Json.Number

/-!
# Reading JSON

A strict reader of one JSON text: no comments, no trailing commas, no lone halves of surrogate
pairs, no byte order mark.  Blanks may stand between any two tokens.  Arrays and objects may stand
inside each other up to a given depth, which is the argument on which the reading of values
recurs; items and members are read in a loop that consumes at least one character per turn.

Each reader takes the text that is left and gives what it has read with the text after it.
-/

namespace CompletionCheck.Json

/-- The blanks of JSON, which are fewer than those of Unicode. -/
def isSpace (c : Char) : Bool :=
  c = ' ' || c = '\n' || c = '\t' || c = '\r'

def skipSpace (cs : List Char) : List Char :=
  cs.dropWhile isSpace

def hexDigit? (c : Char) : Option Nat :=
  if '0' ≤ c && c ≤ '9' then some (c.toNat - '0'.toNat)
  else if 'a' ≤ c && c ≤ 'f' then some (c.toNat - 'a'.toNat + 10)
  else if 'A' ≤ c && c ≤ 'F' then some (c.toNat - 'A'.toNat + 10)
  else none

def codeUnit? (a b c d : Char) : Option Nat :=
  match hexDigit? a, hexDigit? b, hexDigit? c, hexDigit? d with
  | some a, some b, some c, some d => some (((a * 16 + b) * 16 + c) * 16 + d)
  | _, _, _, _ => none

/-- The character that a backslash and a letter stand for. -/
def shortEscape? (c : Char) : Option Char :=
  if c = '"' || c = '\\' || c = '/' then some c
  else if c = 'b' then some '\x08'
  else if c = 'f' then some '\x0c'
  else if c = 'n' then some '\n'
  else if c = 'r' then some '\r'
  else if c = 't' then some '\t'
  else none

/-- Reads a string whose opening quote was read; `acc` holds its characters so far, the last one
first. -/
def readString (acc : List Char) : List Char → Option (String × List Char)
  | [] => none
  | c :: rest =>
    if c = '"' then some (String.ofList acc.reverse, rest)
    else if c = '\\' then
      match rest with
      | [] => none
      | letter :: rest =>
        if letter = 'u' then
          match rest with
          | a :: b :: c :: d :: rest =>
            match codeUnit? a b c d with
            | none => none
            | some unit =>
              if 0xdc00 ≤ unit && unit ≤ 0xdfff then none
              else if 0xd800 ≤ unit && unit ≤ 0xdbff then
                match rest with
                | x :: y :: a :: b :: c :: d :: rest =>
                  match codeUnit? a b c d with
                  | none => none
                  | some low =>
                    if x = '\\' && y = 'u' && 0xdc00 ≤ low && low ≤ 0xdfff then
                      let point := 0x10000 + (unit - 0xd800) * 0x400 + (low - 0xdc00)
                      readString (Char.ofNat point :: acc) rest
                    else none
                | _ => none
              else readString (Char.ofNat unit :: acc) rest
          | _ => none
        else
          match shortEscape? letter with
          | some c => readString (c :: acc) rest
          | none => none
    else if c.toNat < 0x20 then none
    else readString (c :: acc) rest

/-- Reads the items of an array up to its closing bracket; `acc` holds the items so far, the last
one first. -/
def readItems (item : List Char → Option (Json × List Char)) :
    Nat → List Json → List Char → Option (List Json × List Char)
  | 0, _, _ => none
  | fuel + 1, acc, cs =>
    match item cs with
    | none => none
    | some (v, rest) =>
      match skipSpace rest with
      | [] => none
      | c :: rest =>
        if c = ',' then readItems item fuel (v :: acc) rest
        else if c = ']' then some ((v :: acc).reverse, rest)
        else none

/-- Reads the members of an object up to its closing brace; `acc` holds the members so far, in the
order of their keys. -/
def readMembers (value : List Char → Option (Json × List Char)) :
    Nat → List (String × Json) → List Char → Option (List (String × Json) × List Char)
  | 0, _, _ => none
  | fuel + 1, acc, cs =>
    match skipSpace cs with
    | [] => none
    | c :: rest =>
      if c = '"' then
        match readString [] rest with
        | none => none
        | some (key, rest) =>
          match skipSpace rest with
          | [] => none
          | c :: rest =>
            if c = ':' then
              match value rest with
              | none => none
              | some (v, rest) =>
                match skipSpace rest with
                | [] => none
                | c :: rest =>
                  if c = ',' then readMembers value fuel (insertMember key v acc) rest
                  else if c = '\x7d' then some (insertMember key v acc, rest)
                  else none
            else none
      else none

def literals : List (List Char × Json) :=
  [(['n', 'u', 'l', 'l'], .null), (['t', 'r', 'u', 'e'], .bool true),
   (['f', 'a', 'l', 's', 'e'], .bool false)]

def readLiteral (cs : List Char) : Option (Json × List Char) :=
  literals.findSome? fun (word, v) =>
    if word.isPrefixOf cs then some (v, cs.drop word.length) else none

/-- Reads a value in which arrays and objects stand inside each other at most `depth` times. -/
def readValue (depth : Nat) (cs : List Char) : Option (Json × List Char) :=
  match skipSpace cs with
  | [] => none
  | c :: rest =>
    if c = '"' then (readString [] rest).map fun (s, rest) => (.str s, rest)
    else if c = '[' then
      match depth with
      | 0 => none
      | depth + 1 =>
        match skipSpace rest with
        | [] => none
        | d :: after =>
          if d = ']' then some (.arr [], after)
          else (readItems (readValue depth) rest.length [] rest).map fun (items, rest) =>
            (.arr items, rest)
    else if c = '\x7b' then
      match depth with
      | 0 => none
      | depth + 1 =>
        match skipSpace rest with
        | [] => none
        | d :: after =>
          if d = '\x7d' then some (.obj [], after)
          else (readMembers (readValue depth) rest.length [] rest).map fun (members, rest) =>
            (.obj members, rest)
    else if c = '-' || c.isDigit then readNumber (c :: rest)
    else readLiteral (c :: rest)

/-- The nesting that a message may have. -/
def maxNesting : Nat := 127

/-- The value that a text spells, with arrays and objects inside each other at most `depth`
times. -/
def ofChars? (depth : Nat) (cs : List Char) : Option Json :=
  match readValue depth cs with
  | some (v, rest) => if (skipSpace rest).isEmpty then some v else none
  | none => none

def parse? (cs : List Char) : Option Json :=
  ofChars? maxNesting cs

end CompletionCheck.Json
