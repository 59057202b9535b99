/-!
# Durations in messages

Time limits are whole milliseconds.  A message writes one in the largest of the units second and
millisecond that it fills, with as many decimal places as it needs and no trailing zero; the empty
duration is `0ns`.
-/

namespace CompletionCheck.Time

/-- The decimal places of `ms` thousandths, with their point, or nothing when there are none. -/
def fractionText (ms : Nat) : List Char :=
  let digits := Nat.toDigits 10 ms
  let padded := List.replicate (3 - digits.length) '0' ++ digits
  match (padded.reverse.dropWhile (· = '0')).reverse with
  | [] => []
  | places => '.' :: places

/-- A duration of `ms` milliseconds as messages write it. -/
def durationText (ms : Nat) : String :=
  if ms = 0 then "0ns"
  else if ms < 1000 then toString ms ++ "ms"
  else toString (ms / 1000) ++ String.ofList (fractionText (ms % 1000)) ++ "s"

end CompletionCheck.Time
