import CompletionCheck.Toml.Value

/-!
# Dates and times in TOML

A date, a time, or a date with a time and perhaps an offset.  Dates are those of the calendar, a
minute may have a sixty-first second, and seconds are never left out.  In the normal form the date
and the time have a `T` between them, a fraction of a second has at most nine places and no zero
at its end, and an offset is `Z` or in hours and minutes.
-/

namespace CompletionCheck.Toml

/-- Reads exactly `n` digits; gives their value. -/
def readFixed (n : Nat) (cs : List Char) : Option (Nat × List Char) :=
  let digits := cs.take n
  if digits.length = n && digits.all Char.isDigit then
    some (digits.foldl (fun v c => v * 10 + (c.toNat - '0'.toNat)) 0, cs.drop n)
  else none

/-- Reads exactly `n` digits with a value in a range. -/
def readRange (n low high : Nat) (cs : List Char) : Option (Nat × List Char) :=
  match readFixed n cs with
  | some (v, rest) => if low ≤ v ∧ v ≤ high then some (v, rest) else none
  | none => none

def readChar (wanted : Char) (cs : List Char) : Option (List Char) :=
  match cs with
  | c :: rest => if c = wanted then some rest else none
  | [] => none

/-- A number with zeros before it up to a width. -/
def padded (width n : Nat) : List Char :=
  let digits := Nat.toDigits 10 n
  List.replicate (width - digits.length) '0' ++ digits

def daysIn (year month : Nat) : Nat :=
  if month = 2 then
    if year % 4 = 0 ∧ (year % 100 ≠ 0 ∨ year % 400 = 0) then 29 else 28
  else if month = 4 ∨ month = 6 ∨ month = 9 ∨ month = 11 then 30
  else 31

/-- Reads a date; gives its normal form. -/
def readDate (cs : List Char) : Option (List Char × List Char) := do
  let (year, cs) ← readFixed 4 cs
  let cs ← readChar '-' cs
  let (month, cs) ← readRange 2 1 12 cs
  let cs ← readChar '-' cs
  let (day, cs) ← readRange 2 1 31 cs
  if daysIn year month < day then none
  else some (padded 4 year ++ '-' :: padded 2 month ++ '-' :: padded 2 day, cs)

/-- A fraction of a second, with its point, in its normal form. -/
def fractionForm (digits : List Char) : List Char :=
  match ((digits.take 9).reverse.dropWhile (· = '0')).reverse with
  | [] => []
  | places => '.' :: places

/-- Reads a time; gives its normal form. -/
def readTime (cs : List Char) : Option (List Char × List Char) := do
  let (hour, cs) ← readRange 2 0 23 cs
  let cs ← readChar ':' cs
  let (minute, cs) ← readRange 2 0 59 cs
  let cs ← readChar ':' cs
  let (second, cs) ← readRange 2 0 60 cs
  let clock := padded 2 hour ++ ':' :: padded 2 minute ++ ':' :: padded 2 second
  match readChar '.' cs with
  | none => some (clock, cs)
  | some after =>
    match after.span Char.isDigit with
    | ([], _) => some (clock, cs)
    | (digits, rest) => some (clock ++ fractionForm digits, rest)

/-- Reads an offset, if one follows; gives its normal form. -/
def readOffset (cs : List Char) : Option (List Char × List Char) :=
  match cs with
  | [] => some ([], cs)
  | c :: rest =>
    if c = 'Z' || c = 'z' then some (['Z'], rest)
    else if c = '+' || c = '-' then do
      let (hour, rest) ← readRange 2 0 23 rest
      let rest ← readChar ':' rest
      let (minute, rest) ← readRange 2 0 59 rest
      let sign := if c = '-' && (hour ≠ 0 || minute ≠ 0) then '-' else '+'
      some (sign :: padded 2 hour ++ ':' :: padded 2 minute, rest)
    else some ([], cs)

/-- Reads the time and the offset that may follow a date; gives their normal form. -/
def readTimeOfDay (cs : List Char) : Option (List Char × List Char) :=
  match cs with
  | [] => some ([], cs)
  | c :: rest =>
    if c = 'T' || c = 't' || c = ' ' then
      match readFixed 2 rest, readChar ':' (rest.drop 2) with
      | some _, some _ => do
        let (time, rest) ← readTime rest
        let (offset, rest) ← readOffset rest
        some ('T' :: time ++ offset, rest)
      | _, _ => some ([], cs)
    else some ([], cs)

def beginsDate (cs : List Char) : Bool :=
  (readFixed 4 cs).isSome && cs[4]? == some '-'

def beginsTime (cs : List Char) : Bool :=
  (readFixed 2 cs).isSome && cs[2]? == some ':'

/-- Reads a date or a time from a text that begins as one. -/
def readMoment (cs : List Char) : Option (Value × List Char) :=
  if beginsDate cs then do
    let (date, cs) ← readDate cs
    let (rest, cs) ← readTimeOfDay cs
    some (.moment (String.ofList (date ++ rest)), cs)
  else do
    let (time, cs) ← readTime cs
    some (.moment (String.ofList time), cs)

end CompletionCheck.Toml
