import CompletionCheck.Decimal.Shortest
import CompletionCheck.Json.Basic

/-!
# Numbers in JSON texts

A whole number that fits 64 bits, signed or unsigned, is kept as it is; every other number is a
float.  A float is read from the leading digits that fit an unsigned 64-bit significand and a
power of ten: further digits of the whole part raise the power, further digits of the fraction are
dropped, and the significand is multiplied or divided by the power once.  The result is not always
the float nearest to the text; it is the float that both ends of a connection agree on.

Written, a float has the fewest digits that read back.  It is positional between `10 ^ (-5)` and
`10 ^ 16`, always with a point, and has an exponent with its sign and without padding otherwise.
-/

namespace CompletionCheck.Json

/-! ## Writing -/

/-- The sign of an exponent, written also when it is positive. -/
def exponentSign (exponent : Int) : Char :=
  if exponent < 0 then '-' else '+'

/-- A positive decimal as JSON writes it. -/
def decimalText (d : Decimal) : List Char :=
  let digits := Nat.toDigits 10 d.digits
  let count := digits.length
  /- The place of the point, counted from the first digit. -/
  let point : Int := count + d.exponent
  if 0 ≤ d.exponent ∧ point ≤ 16 then
    digits ++ List.replicate d.exponent.toNat '0' ++ ['.', '0']
  else if 0 < point ∧ point ≤ 16 then
    digits.take point.toNat ++ ['.'] ++ digits.drop point.toNat
  else if -5 < point ∧ point ≤ 0 then
    ['0', '.'] ++ List.replicate (-point).toNat '0' ++ digits
  else
    let exponent := 'e' :: exponentSign (point - 1) :: Nat.toDigits 10 (point - 1).natAbs
    match digits with
    | [d] => d :: exponent
    | d :: rest => d :: '.' :: rest ++ exponent
    | [] => exponent

/-- A float as JSON writes it; infinities and what is no number are written as `null`. -/
def floatText (x : Float) : List Char :=
  let bits := x.toBits.toNat
  let sign := if bits < 0x8000000000000000 then [] else ['-']
  if bits % 0x8000000000000000 = 0 then sign ++ ['0', '.', '0']
  else
    match Decimal.shortest? bits with
    | some d => sign ++ decimalText d
    | none => ['n', 'u', 'l', 'l']

/-! ## Reading -/

/-- The digits that a text begins with, as their values, and the rest. -/
def takeDigits (cs : List Char) : List Nat × List Char :=
  let (digits, rest) := cs.span Char.isDigit
  (digits.map fun c => c.toNat - '0'.toNat, rest)

/-- Takes digits into a significand for as long as it fits 64 bits; gives the significand and the
digits left over. -/
def fillSignificand (significand : Nat) : List Nat → Nat × List Nat
  | [] => (significand, [])
  | d :: ds =>
    if 0x10000000000000000 ≤ significand * 10 + d then (significand, d :: ds)
    else fillSignificand (significand * 10 + d) ds

def powerOfTen (e : Nat) : Float :=
  Float.ofScientific 1 false e

/-- Divides by `10 ^ e`, at most `10 ^ 308` at a time, and stops at zero. -/
def scaleDown (x : Float) (e : Nat) : Float :=
  if e ≤ 308 then x / powerOfTen e
  else if x == 0 then x
  else scaleDown (x / powerOfTen 308) (e - 308)
termination_by e

/-- The float `significand * 10 ^ exponent`; none when it is out of range. -/
def scale? (significand : Nat) (exponent : Int) : Option Float :=
  let x := significand.toUInt64.toFloat
  if exponent < 0 then some (scaleDown x (-exponent).toNat)
  else if exponent ≤ 308 then
    let y := x * powerOfTen exponent.toNat
    if y.isInf then none else some y
  else if significand = 0 then some x
  else none

/-- The value of an exponent's digits, none when it does not fit 31 bits. -/
def exponentValue? (digits : List Nat) : Option Nat :=
  let value := digits.foldl (fun n d => if 0x80000000 ≤ n then n else n * 10 + d) 0
  if value < 0x80000000 then some value else none

/-- The magnitude of a float with the given significand and power of ten, the exponent that may
follow read from the text. -/
def readExponent (significand : Nat) (power : Int) (cs : List Char) : Option (Float × List Char) :=
  match cs with
  | c :: rest =>
    if c = 'e' || c = 'E' then
      let (negative, rest) :=
        match rest with
        | s :: after =>
          if s = '-' then (true, after) else if s = '+' then (false, after) else (false, rest)
        | [] => (false, rest)
      let (digits, rest) := takeDigits rest
      if digits.isEmpty then none
      else
        match exponentValue? digits with
        | some e =>
          let total := if negative then power - e else power + e
          (scale? significand total).map fun x => (x, rest)
        | none =>
          if significand ≠ 0 && !negative then none else some (0, rest)
    else (scale? significand power).map fun x => (x, cs)
  | [] => (scale? significand power).map fun x => (x, cs)

/-- The magnitude of a float whose fraction begins after the point that was just read. -/
def readFraction (significand : Nat) (power : Int) (cs : List Char) : Option (Float × List Char) :=
  let (digits, rest) := takeDigits cs
  if digits.isEmpty then none
  else
    let (filled, dropped) := fillSignificand significand digits
    readExponent filled (power - (digits.length - dropped.length : Nat)) rest

/-- The number with the given sign that a text without its sign begins with. -/
def readMagnitude (negative : Bool) (cs : List Char) : Option (Json × List Char) :=
  let (digits, rest) := takeDigits cs
  let signed (x : Float) : Json := .float (if negative then -x else x)
  match digits with
  | [] => none
  | 0 :: _ :: _ => none
  | _ =>
    let (significand, dropped) := fillSignificand 0 digits
    let fractional :=
      match rest with
      | c :: after =>
        if c = '.' then some (readFraction significand dropped.length after)
        else if c = 'e' || c = 'E' then some (readExponent significand dropped.length rest)
        else none
      | [] => none
    match fractional with
    | some result => result.map fun (x, after) => (signed x, after)
    | none =>
      if !dropped.isEmpty then
        (scale? significand dropped.length).map fun x => (signed x, rest)
      else if !negative then some (.int significand, rest)
      else if significand = 0 || 0x8000000000000000 < significand then
        some (signed significand.toUInt64.toFloat, rest)
      else some (.int (-significand), rest)

/-- The number that a text begins with, and the rest of the text. -/
def readNumber : List Char → Option (Json × List Char)
  | [] => none
  | c :: rest => if c = '-' then readMagnitude true rest else readMagnitude false (c :: rest)

end CompletionCheck.Json
