import CompletionCheck.Service.Run
import CompletionCheck.Suite.Basic

/-!
# Running a suite

The checks of a suite are run one after the other on one service.  A check that cannot reach the
service is recorded as such and the run goes on; a broken check is recorded without a call.  A run
tells what happens as a list of events: the start, every check with its outcome, and the end with
the tally, which counts exactly the outcomes told.
-/

namespace CompletionCheck.Suite

/-- How a check ended: `failed` when the service answered and the answer does not meet the case,
`errored` when there was no answer, and `broken` when there was no case to ask about. -/
inductive Outcome
  | passed
  | failed (why : Service.Failure)
  | errored (e : ServiceError)
  | broken
deriving DecidableEq, Repr

namespace Outcome

def isSuccess : Outcome → Bool
  | .passed => true
  | _ => false

def label : Outcome → String
  | .passed => "ok"
  | .failed _ => "FAILED"
  | .errored _ => "ERROR"
  | .broken => "BROKEN"

def ofRun : Except ServiceError Service.Verdict → Outcome
  | .ok .pass => .passed
  | .ok (.fail why) => .failed why
  | .error e => .errored e

end Outcome

/-- How many checks ended in which way, and how many files were skipped. -/
structure Tally where
  passed : Nat := 0
  failed : Nat := 0
  errored : Nat := 0
  broken : Nat := 0
  skipped : Nat := 0
deriving DecidableEq, Repr

namespace Tally

def isSuccess (t : Tally) : Bool :=
  t.failed == 0 && t.errored == 0 && t.broken == 0

def total (t : Tally) : Nat :=
  t.passed + t.failed + t.errored + t.broken

def record (t : Tally) : Outcome → Tally
  | .passed => { t with passed := t.passed + 1 }
  | .failed _ => { t with failed := t.failed + 1 }
  | .errored _ => { t with errored := t.errored + 1 }
  | .broken => { t with broken := t.broken + 1 }

def line (t : Tally) : String :=
  "test result: " ++ (if t.isSuccess then "ok" else "FAILED") ++ ". " ++
    toString t.passed ++ " passed; " ++ toString t.failed ++ " failed; " ++
    toString t.errored ++ " errored; " ++ toString t.broken ++ " broken; " ++
    toString t.skipped ++ " skipped"

end Tally

inductive Event
  | started (suite : Suite)
  | finished (check : Check) (outcome : Outcome)
  | ended (tally : Tally)
deriving DecidableEq

def runCheck {σ : Type} (service : Service σ) (settings : Json) (check : Check) (s : σ) :
    Outcome × σ :=
  match check.kind with
  | .broken _ => (.broken, s)
  | .ofCase c =>
    let (result, s) := service.runCase c settings s
    (.ofRun result, s)

def runChecks {σ : Type} (service : Service σ) (settings : Json) :
    List Check → σ → List (Check × Outcome) × σ
  | [], s => ([], s)
  | check :: rest, s =>
    let (outcome, s) := runCheck service settings check s
    let (results, s) := runChecks service settings rest s
    ((check, outcome) :: results, s)

def tally (suite : Suite) (results : List (Check × Outcome)) : Tally :=
  results.foldl (fun t r => t.record r.2) { skipped := suite.scan.skipped.length }

def events (suite : Suite) (results : List (Check × Outcome)) : List Event :=
  .started suite :: results.map (fun r => .finished r.1 r.2) ++ [.ended (tally suite results)]

/-- Runs a suite; gives what happened and the state of the service. -/
def run {σ : Type} (suite : Suite) (service : Service σ) (settings : Json) (s : σ) :
    List Event × σ :=
  let (results, s) := runChecks service settings suite.checks s
  (events suite results, s)

end CompletionCheck.Suite
