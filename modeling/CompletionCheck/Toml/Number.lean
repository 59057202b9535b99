import CompletionCheck.Toml.Value
import CompletionCheck.Json.Parser

/-!
# Numbers in TOML

Whole numbers in four bases, which have to fit the signed range of 64 bits, and floats.  Underscores
may stand between two digits.  A float is the one nearest to its text; a text above every float is
no number, while one below every float is negative infinity.
-/

namespace CompletionCheck.Toml

/-- Reads digits with single underscores between them; at least one digit was asked for before. -/
def readDigits (isDigit : Char → Bool) (acc : List Char) :
    List Char → Option (List Char × List Char)
  | [] => some (acc.reverse, [])
  | c :: rest =>
    if isDigit c then readDigits isDigit (c :: acc) rest
    else if c = '_' && !acc.isEmpty then
      match rest with
      | d :: rest => if isDigit d then readDigits isDigit (d :: acc) rest else none
      | [] => none
    else some (acc.reverse, c :: rest)

def readDigits1 (isDigit : Char → Bool) (cs : List Char) : Option (List Char × List Char) :=
  match readDigits isDigit [] cs with
  | some (d :: ds, rest) => some (d :: ds, rest)
  | _ => none

def digitsValue (base : Nat) (digits : List Char) : Nat :=
  digits.foldl (fun n c => n * base + (Json.hexDigit? c).getD 0) 0

def integer? (n : Int) : Option Value :=
  if -0x8000000000000000 ≤ n ∧ n < 0x8000000000000000 then some (.integer n) else none

/-- The float nearest to `digits * 10 ^ exponent`.  Exponents far beyond the range of floats are
not computed. -/
def nearestFloat (digits : List Char) (exponent : Int) : Float :=
  let digits := digits.dropWhile (· = '0')
  let size : Int := digits.length + exponent
  if digits.isEmpty || size < -400 then 0.0
  else if 400 < size then 1.0 / 0.0
  else
    let significand := digitsValue 10 digits
    if exponent < 0 then Float.ofScientific significand true (-exponent).toNat
    else Float.ofScientific significand false exponent.toNat

/-- A float with a sign, unless it lies above every float. -/
def float? (negative : Bool) (x : Float) : Option Value :=
  if negative then some (.float (-x)) else if x.isInf then none else some (.float x)

/-- Reads an exponent, whose letter was read. -/
def readExponent (cs : List Char) : Option (Int × List Char) :=
  let (negative, cs) :=
    match cs with
    | c :: rest => if c = '-' then (true, rest) else if c = '+' then (false, rest) else (false, cs)
    | [] => (false, cs)
  (readDigits1 Char.isDigit cs).map fun (digits, rest) =>
    let value : Int := digitsValue 10 digits
    (if negative then -value else value, rest)

/-- Reads the exponent of a float, if one follows, and makes the float. -/
def endFloat (negative : Bool) (digits : List Char) (places : Nat) (cs : List Char) :
    Option (Value × List Char) :=
  match cs with
  | c :: rest =>
    if c = 'e' || c = 'E' then
      match readExponent rest with
      | some (e, rest) =>
        (float? negative (nearestFloat digits (e - places))).map fun v => (v, rest)
      | none => none
    else (float? negative (nearestFloat digits (-places))).map fun v => (v, cs)
  | [] => (float? negative (nearestFloat digits (-places))).map fun v => (v, cs)

/-- Reads the digits of a decimal whole part: a zero alone, or digits that begin with none. -/
def readWhole (cs : List Char) : Option (List Char × List Char) :=
  match cs with
  | c :: rest => if c = '0' then some ([c], rest) else readDigits1 Char.isDigit cs
  | [] => none

def readDecimal (negative : Bool) (cs : List Char) : Option (Value × List Char) :=
  match readWhole cs with
  | none => none
  | some (whole, rest) =>
    let asInteger :=
      let n : Int := digitsValue 10 whole
      (integer? (if negative then -n else n)).map fun v => (v, rest)
    match rest with
    | c :: after =>
      if c = '.' then
        match readDigits1 Char.isDigit after with
        | some (places, rest) => endFloat negative (whole ++ places) places.length rest
        | none => none
      else if c = 'e' || c = 'E' then endFloat negative whole 0 rest
      else asInteger
    | [] => asInteger

/-- Reads a number in a base other than ten, whose two marks were read. -/
def readBased (base : Nat) (isDigit : Char → Bool) (cs : List Char) : Option (Value × List Char) :=
  match readDigits1 isDigit cs with
  | some (digits, rest) => (integer? (digitsValue base digits)).map fun v => (v, rest)
  | none => none

def readFloatWord (negative : Bool) (cs : List Char) : Option (Value × List Char) :=
  let word := cs.take 3
  if word = ['i', 'n', 'f'] then
    some (.float (if negative then -(1.0 / 0.0) else 1.0 / 0.0), cs.drop 3)
  else if word = ['n', 'a', 'n'] then some (.float (0.0 / 0.0), cs.drop 3)
  else none

def readNumber (cs : List Char) : Option (Value × List Char) :=
  match cs with
  | [] => none
  | c :: rest =>
    if c = '+' || c = '-' then
      (readFloatWord (c = '-') rest).or (readDecimal (c = '-') rest)
    else
      match cs.take 2 with
      | ['0', 'x'] => readBased 16 (fun c => (Json.hexDigit? c).isSome) (cs.drop 2)
      | ['0', 'o'] => readBased 8 (fun c => '0' ≤ c && c ≤ '7') (cs.drop 2)
      | ['0', 'b'] => readBased 2 (fun c => c = '0' || c = '1') (cs.drop 2)
      | _ => (readFloatWord false cs).or (readDecimal false cs)

end CompletionCheck.Toml
