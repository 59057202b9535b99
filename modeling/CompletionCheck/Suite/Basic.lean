import CompletionCheck.Fixture.Case
import CompletionCheck.Suite.Scan

/-!
# Suites

A suite is a flat list of named checks: one for every line with a comment in every fixture, in the
order of the fixtures and their lines.  A line that asks for something impossible and a fixture
that cannot be read are checks as well, which never pass, so that they cannot go unnoticed.
-/

namespace CompletionCheck.Suite

open Fixture (TestCase LineError Entry)

/-- Why a fixture, or a line of it, cannot be checked. -/
inductive FixtureError
  | unreadable (path : String) (why : IoKind)
  | line (e : LineError)
deriving DecidableEq, Repr

def FixtureError.diagnosis : FixtureError → Diagnosis
  | .unreadable path why =>
    { message := "failed to read fixture " ++ path ++ ": " ++ why.text
      code := "harness::scan::read_fixture" }
  | .line e => e.diagnosis

inductive CheckKind
  | ofCase (c : TestCase)
  | broken (e : FixtureError)
deriving DecidableEq

/-- A named check of a fixture.  Only a check that is about a case reaches the service; how a broken
one ends is settled before anything runs. -/
structure Check where
  name : String
  /-- The path of the fixture. -/
  fixture : String
  kind : CheckKind
deriving DecidableEq

def FixtureFile.load (t : Files.Tree) (f : FixtureFile) : Except FixtureError (List Entry) :=
  match t.readText f.path with
  | .error why => .error (.unreadable f.path why)
  | .ok text => .ok (Fixture.entries f.path text f.dialect)

def checkOfEntry (path : String) : Entry → Check
  | .ok c => ⟨c.name, path, .ofCase c⟩
  | .error e => ⟨"annotation " ++ path ++ ":" ++ toString e.line, path, .broken (.line e)⟩

/-- The checks that a fixture gives, from what loading it gave. -/
def checksOf (path : String) : Except FixtureError (List Entry) → List Check
  | .ok entries => entries.map (checkOfEntry path)
  | .error e => [⟨"load " ++ path, path, .broken e⟩]

def loadNotices : Except FixtureError (List Entry) → List Notice
  | .ok entries =>
    Fixture.notices entries ++ entries.filterMap fun
      | .ok _ => none
      | .error e => some (.warn e.diagnosis.message)
  | .error e => [.warn e.diagnosis.message]

end CompletionCheck.Suite

namespace CompletionCheck

structure Suite where
  dir : String
  scan : Suite.Scan
  checks : List Suite.Check
deriving DecidableEq

end CompletionCheck

namespace CompletionCheck.Suite

open Fixture (TestCase)

/-- Finds the checks of a directory; gives them with the notices on the way. -/
def discover (t : Files.Tree) (dir : String) : Except ScanError (Suite × List Notice) :=
  match Scan.ofDirectory t dir with
  | .error e => .error e
  | .ok (found, notices) =>
    let loaded := found.fixtures.map fun f => (f.path, f.load t)
    .ok (⟨dir, found, loaded.flatMap fun l => checksOf l.1 l.2⟩,
      notices ++ loaded.flatMap fun l => loadNotices l.2)

/-- The suite with the checks whose names hold a text. -/
def filter (s : Suite) (text : String) : Suite :=
  { s with checks := s.checks.filter fun c => Text.occursIn text.toList c.name.toList }

def Check.case? (c : Check) : Option TestCase :=
  match c.kind with
  | .ofCase c => some c
  | .broken _ => none

def cases (s : Suite) : List TestCase :=
  s.checks.filterMap Check.case?

end CompletionCheck.Suite
