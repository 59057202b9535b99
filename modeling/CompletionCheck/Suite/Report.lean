import CompletionCheck.Suite.Run

/-!
# Reporting a run

The console shows a line when a run starts, one for every check, and one with the tally.  Every
check that did not pass also gives a report, which points at the place in the fixture: the code
before which completion was asked for, or the comment that asks for something impossible.
-/

namespace CompletionCheck.Suite

open Fixture (TestCase)

/-- The report about a check that did not pass. -/
structure Report where
  name : String
  message : String
  fixture : String
  /-- The text of the fixture, empty when it cannot be read. -/
  text : String
  /-- The first byte and the number of bytes of the place in question. -/
  span : Option (Nat × Nat)
  /-- What is at that place. -/
  label : String
  help : Option String
deriving DecidableEq, Repr

def Report.code : String := "cli::check_failed"

def Report.line (r : Report) : String := r.name ++ ": " ++ r.message

def caseReport (check : Check) (c : TestCase) (d : Diagnosis) : Report where
  name := check.name
  message := d.message
  fixture := c.source
  text := c.text
  span := some (c.lineStart, Text.byteLength c.code.toList)
  label := "completion requested on this line"
  help := d.help

def brokenReport (t : Files.Tree) (check : Check) (e : FixtureError) : Report where
  name := check.name
  message := e.diagnosis.message
  fixture := check.fixture
  text :=
    match t.readText check.fixture with
    | .ok text => text
    | .error _ => ""
  span :=
    match e with
    | .line e => some (e.spanStart, e.spanLength)
    | .unreadable .. => none
  label := "this annotation"
  help := e.diagnosis.help

/-- The report about a check, when it did not pass. -/
def report? (t : Files.Tree) (check : Check) (outcome : Outcome) : Option Report :=
  match outcome, check.kind with
  | .passed, _ => none
  | _, .broken e => some (brokenReport t check e)
  | .failed why, .ofCase c => some (caseReport check c why.diagnosis)
  | .errored e, .ofCase c => some (caseReport check c e.diagnosis)
  | .broken, .ofCase _ => none

def Event.console : Event → String
  | .started suite =>
    "running " ++ toString suite.checks.length ++ " checks from " ++ suite.dir ++ "\n" ++
      if suite.scan.isolated then "note: an ONLY fixture is restricting this run\n" else ""
  | .finished check outcome => check.name ++ " ... " ++ outcome.label ++ "\n"
  | .ended tally => "\n" ++ tally.line ++ "\n"

def console (events : List Event) : String :=
  String.join (events.map Event.console)

def reports (t : Files.Tree) (events : List Event) : List Report :=
  events.filterMap fun
    | .finished check outcome => report? t check outcome
    | _ => none

def outcomes (events : List Event) : List Outcome :=
  events.filterMap fun
    | .finished _ outcome => some outcome
    | _ => none

def finalTally (events : List Event) : Tally :=
  events.foldl (fun t e => match e with | .ended tally => tally | _ => t) {}

end CompletionCheck.Suite
