/-!
# The shortest decimal of a binary number

A finite binary number stands for every real number that lies nearer to it than to any other, and
a decimal that lies in this interval reads back as the number.  `shortest` picks, among the
decimals that read back, one with the fewest digits, and of several such the nearest; of two
equally near, the even one.

The search runs over the grids `10 ^ e` from coarse to fine.  On a coarser grid a number of the
same size has fewer digits, and if any point of a grid lies in the interval then one of the two
neighbours of the number on that grid does, so the first grid with a neighbour in the interval
decides.  All comparisons are between natural numbers: an interval is given by its two ends and
the number itself, over one denominator.
-/

namespace CompletionCheck

/-- A decimal `digits * 10 ^ exponent`. -/
structure Decimal where
  digits : Nat
  exponent : Int
deriving DecidableEq, Repr

end CompletionCheck

namespace CompletionCheck.Decimal

/-- The reals that round to a positive binary number: `low / den` to `high / den`, with the
number itself at `mid / den`. -/
structure Interval where
  low : Nat
  mid : Nat
  high : Nat
  den : Nat
  closed : Bool
deriving DecidableEq, Repr

/-- The interval of `significand * 2 ^ (exponent - 1074)`.  A power of two stands half as far from
the number below it as from the number above it. -/
def Interval.ofBinary (significand exponent : Nat) (powerOfTwo : Bool) : Interval :=
  let scale := Nat.pow 2 exponent
  { low := (4 * significand - if powerOfTwo then 1 else 2) * scale
    mid := 4 * significand * scale
    high := (4 * significand + 2) * scale
    den := Nat.pow 2 1076
    closed := significand % 2 == 0 }

/-- Whether `num / den` lies in the interval, where `den` is the interval's denominator times
`factor`. -/
def Interval.contains (i : Interval) (factor num : Nat) : Bool :=
  if i.closed then i.low * factor ≤ num && num ≤ i.high * factor
  else i.low * factor < num && num < i.high * factor

/-- The neighbour of the number on the grid `10 ^ e` that reads back and lies nearest, if any. -/
def Interval.onGrid? (i : Interval) (e : Int) : Option Decimal :=
  let factor := Nat.pow 10 (-e).toNat
  let step := Nat.pow 10 e.toNat * i.den
  let mid := i.mid * factor
  let below := mid / step
  let above := below + 1
  let belowFits := i.contains factor (below * step)
  let aboveFits := i.contains factor (above * step)
  let towardBelow := mid - below * step
  let towardAbove := above * step - mid
  let belowIsNearer :=
    towardBelow < towardAbove || (towardBelow == towardAbove && below % 2 == 0)
  if belowFits && (belowIsNearer || !aboveFits) then some ⟨below, e⟩
  else if aboveFits then some ⟨above, e⟩
  else none

/-- Searches the grids from `10 ^ (steps - 325)` down to `10 ^ (-324)`. -/
def Interval.search (i : Interval) : Nat → Option Decimal
  | 0 => none
  | steps + 1 =>
    match i.onGrid? ((steps : Int) - 324) with
    | some d => some d
    | none => i.search steps

/-- The interval of the magnitude of a finite number other than zero, from its bits. -/
def Interval.ofBits? (bits : Nat) : Option Interval :=
  let biased := bits / 0x10000000000000 % 0x800
  let fraction := bits % 0x10000000000000
  if biased = 0x7ff then none
  else if biased = 0 then
    if fraction = 0 then none else some (.ofBinary fraction 0 false)
  else some (.ofBinary (0x10000000000000 + fraction) (biased - 1) (fraction = 0 && biased > 1))

/-- The shortest decimal of the magnitude of a finite number other than zero. -/
def shortest? (bits : Nat) : Option Decimal :=
  (Interval.ofBits? bits).bind fun i => i.search 634

end CompletionCheck.Decimal
