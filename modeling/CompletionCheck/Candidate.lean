import CompletionCheck.Dialect

/-!
# Candidates

A completion that a service offers, reduced to the names by which fixtures know it.
-/

namespace CompletionCheck

/-- A completion that a service offers.  Without a name of its own in the alternate dialect it is
known there by the other one. -/
structure Candidate where
  name : String
  /-- The name in the alternate dialect, when the service gives one. -/
  dialectName : Option String := none
deriving DecidableEq, Repr

def Candidate.nameIn (c : Candidate) (d : Dialect) : String :=
  if d.isAlternate then c.dialectName.getD c.name else c.name

end CompletionCheck
