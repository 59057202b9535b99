import CompletionCheck.Candidate
import CompletionCheck.Fixture.Case

/-!
# Comparing a completion list with a case

A list meets a case when every expected symbol is in it, each first stands strictly later than the
expected symbol before it first stands, and no unwanted symbol is in it.  The first expected
symbol that breaks this is reported, and only then the unwanted ones are looked for, in the order
of the set.  First occurrences decide everything, so repeated names never mend a list.
-/

namespace CompletionCheck

open Fixture (TestCase)

inductive Violation
  /-- An expected symbol is not there; short lists are quoted in full. -/
  | missing (symbol line : String) (received : Nat) (actual : Option (List String))
  /-- An expected symbol stands before, or is, the one that should precede it. -/
  | outOfOrder (symbol : String) (index : Nat) (previous : String) (previousIndex : Nat)
  /-- An unwanted symbol is there. -/
  | unwanted (symbol line : String) (index : Nat)
deriving DecidableEq, Repr

namespace Violation

/-- What ends the message of a missing symbol: the names received, when there were few. -/
def listing : Option (List String) → String
  | some names => ": " ++ ", ".intercalate names
  | none => "."

def diagnosis : Violation → Diagnosis
  | .missing symbol line received actual =>
    { message := "did not receive symbol '" ++ symbol ++ "' for '" ++ line ++ "'; instead we got "
        ++ toString received ++ " other symbols" ++ listing actual
      code := "harness::validate::missing" }
  | .outOfOrder symbol index previous previousIndex =>
    { message := "found symbol '" ++ symbol ++ "', but in the wrong order at index: "
        ++ toString index ++ ". Expected it after: " ++ previous
      code := "harness::validate::out_of_order"
      help := some ("'" ++ previous ++ "' was found at index " ++ toString previousIndex) }
  | .unwanted symbol line _ =>
    { message := "received explicitly unwanted symbol '" ++ symbol ++ "' for '" ++ line ++ "'"
      code := "harness::validate::unwanted" }

end Violation

/-- Lists with fewer names than this are quoted when a symbol is missing. -/
def quotedBelow : Nat := 5

/-- The first violation among expected symbols; `last` is the expected symbol found before them
and the index at which it was found. -/
def expectedViolation? (line : String) (names : List String) (last : Option (String × Nat)) :
    List String → Option Violation
  | [] => none
  | symbol :: rest =>
    match names.idxOf? symbol with
    | none =>
      some (.missing symbol line names.length
        (if names.length < quotedBelow then some names else none))
    | some index =>
      match last with
      | none => expectedViolation? line names (some (symbol, index)) rest
      | some (previous, previousIndex) =>
        if index ≤ previousIndex then some (.outOfOrder symbol index previous previousIndex)
        else expectedViolation? line names (some (symbol, index)) rest

/-- The first unwanted symbol that is there. -/
def unwantedViolation? (line : String) (names : List String) (unwanted : List String) :
    Option Violation :=
  unwanted.findSome? fun symbol =>
    (names.idxOf? symbol).map fun index => .unwanted symbol line index

/-- Compares the names that a case sees with what it asks. -/
def checkNames (c : TestCase) (names : List String) : Option Violation :=
  (expectedViolation? c.code names none c.expected).or
    (unwantedViolation? c.code names c.unwanted.symbols)

/-- The first violation of a case by a completion list, if there is one. -/
def validate (c : TestCase) (candidates : List Candidate) : Option Violation :=
  checkNames c (candidates.map (·.nameIn c.dialect))

end CompletionCheck
