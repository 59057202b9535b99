import CompletionCheck.Toml.Moment
import CompletionCheck.Toml.Number
import CompletionCheck.Toml.Table
import CompletionCheck.Toml.Text

/-!
# Reading TOML

A document is read into the statements of its lines (`readStatements`): headers and definitions.
Arrays may go over several lines and hold comments; inline tables stand on one line and have no
comma before their end.  Arrays and inline tables may stand inside each other up to a depth, which
is the argument on which the reading of values recurs.
-/

namespace CompletionCheck.Toml

/-- The text without the blanks, line ends and comments at its beginning, which may lie inside a
comment. -/
def skipFrom (inComment : Bool) : List Char → List Char
  | [] => []
  | c :: rest =>
    if inComment && isLineChar c then skipFrom true rest
    else if isGap c || c = '\n' then skipFrom false rest
    else if c = '#' then skipFrom true rest
    else c :: rest

/-- The text without everything at its beginning that may stand between the items of an array. -/
def skipBetween (cs : List Char) : List Char :=
  skipFrom false cs

/-- Reads the items of an array whose opening bracket was read; `acc` holds the items so far, the
last one first. -/
def readItems (item : List Char → Option (Value × List Char)) :
    Nat → List Value → List Char → Option (List Value × List Char)
  | 0, _, _ => none
  | fuel + 1, acc, cs =>
    match skipBetween cs with
    | [] => none
    | c :: rest =>
      if c = ']' then some (acc.reverse, rest)
      else
        match item (c :: rest) with
        | none => none
        | some (v, rest) =>
          match skipBetween rest with
          | [] => none
          | c :: rest =>
            if c = ',' then readItems item fuel (v :: acc) rest
            else if c = ']' then some ((v :: acc).reverse, rest)
            else none

/-- Reads a definition up to the end of its value. -/
def readPair (value : List Char → Option (Value × List Char)) (cs : List Char) :
    Option ((List String × Value) × List Char) :=
  match readKey cs with
  | none => none
  | some (keys, rest) =>
    match rest with
    | [] => none
    | c :: rest =>
      if c = '=' then (value (skipGaps rest)).map fun (v, rest) => ((keys, v), rest)
      else none

/-- Reads the definitions of an inline table, the first of which has to be there. -/
def readPairs (value : List Char → Option (Value × List Char)) :
    Nat → List (List String × Value) → List Char → Option (List (List String × Value) × List Char)
  | 0, _, _ => none
  | fuel + 1, acc, cs =>
    match readPair value cs with
    | none => none
    | some (pair, rest) =>
      match skipGaps rest with
      | [] => none
      | c :: rest =>
        if c = ',' then readPairs value fuel (pair :: acc) rest
        else if c = '\x7d' then some ((pair :: acc).reverse, rest)
        else none

def readBoolean (cs : List Char) : Option (Value × List Char) :=
  if ['t', 'r', 'u', 'e'].isPrefixOf cs then some (.boolean true, cs.drop 4)
  else if ['f', 'a', 'l', 's', 'e'].isPrefixOf cs then some (.boolean false, cs.drop 5)
  else none

/-- Reads a value in which arrays and inline tables stand inside each other at most `depth`
times. -/
def readValue (depth : Nat) (cs : List Char) : Option (Value × List Char) :=
  match cs with
  | [] => none
  | c :: rest =>
    if c = '"' || c = '\x27' then (readString cs).map fun (s, rest) => (.string s, rest)
    else if c = '[' then
      match depth with
      | 0 => none
      | depth + 1 =>
        (readItems (readValue depth) cs.length [] rest).map fun (items, rest) =>
          (.array items, rest)
    else if c = '\x7b' then
      match depth with
      | 0 => none
      | depth + 1 =>
        match skipGaps rest with
        | [] => none
        | d :: after =>
          if d = '\x7d' then some (.table [], after)
          else
            match readPairs (readValue depth) cs.length [] rest with
            | none => none
            | some (pairs, rest) => (inlineTable? pairs).map fun v => (v, rest)
    else if c = 't' || c = 'f' then readBoolean cs
    else if beginsDate cs || beginsTime cs then readMoment cs
    else readNumber cs

/-! ## Lines -/

inductive Statement
  | define (keys : List String) (v : Value)
  | header (keys : List String)
  /-- A header in double brackets. -/
  | arrayHeader (keys : List String)

/-- Reads a header whose opening bracket was read. -/
def readHeader (cs : List Char) : Option (Statement × List Char) :=
  match cs with
  | [] => none
  | c :: rest =>
    if c = '[' then
      match readKey rest with
      | some (keys, a :: b :: rest) =>
        if a = ']' && b = ']' then some (.arrayHeader keys, rest) else none
      | _ => none
    else
      match readKey cs with
      | some (keys, a :: rest) => if a = ']' then some (.header keys, rest) else none
      | _ => none

def readStatement (cs : List Char) : Option (Statement × List Char) :=
  match cs with
  | [] => none
  | c :: rest =>
    if c = '[' then readHeader rest
    else (readPair (readValue maxDepth) cs).map fun ((keys, v), rest) => (.define keys v, rest)

/-- Reads statements with the line ends after them up to the end of the text; `acc` holds those
read so far, the last one first. -/
def readLines : Nat → List Statement → List Char → Option (List Statement)
  | 0, _, _ => none
  | fuel + 1, acc, cs =>
    match skipBetween cs with
    | [] => some acc.reverse
    | c :: rest =>
      match readStatement (c :: rest) with
      | none => none
      | some (s, rest) =>
        match endOfLine? rest with
        | none => none
        | some rest => readLines fuel (s :: acc) rest

/-- Joins the pairs of carriage return and line feed. -/
def joinLineEnds : List Char → List Char
  | [] => []
  | c :: rest =>
    if c = '\r' && rest.head? == some '\n' then joinLineEnds rest else c :: joinLineEnds rest

/-- Reads the statements of a document; a byte order mark at its beginning does not count. -/
def readStatements (cs : List Char) : Option (List Statement) :=
  let cs :=
    match cs with
    | c :: rest => if c = '\ufeff' then rest else cs
    | [] => []
  readLines (cs.length + 1) [] (joinLineEnds cs)

end CompletionCheck.Toml
