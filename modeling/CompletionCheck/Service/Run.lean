import CompletionCheck.Service.Basic
import CompletionCheck.Validation

/-!
# Running a case

A case is run in three steps: the service is configured with the case's fixture, prepares, and
answers the case's question.  The first step that fails ends the run without a verdict.  A service
that reports a failure of its own fails the case.
-/

namespace CompletionCheck.Service

open Fixture (TestCase)

inductive Failure
  | crashed (message : String)
  | violation (v : Violation)
deriving DecidableEq, Repr

def Failure.diagnosis : Failure → Diagnosis
  | .crashed message =>
    { message := "completion service reported an error: " ++ message
      code := "harness::engine::service_error" }
  | .violation v => v.diagnosis

inductive Verdict
  | pass
  | fail (why : Failure)
deriving DecidableEq, Repr

def verdict (c : TestCase) : Reply → Verdict
  | .failed message => .fail (.crashed message)
  | .completions candidates =>
    match validate c candidates with
    | none => .pass
    | some v => .fail (.violation v)

/-- Runs a case with the given settings.  The first of the three steps that fails ends the run, and
the service is left as that step left it. -/
def runCase {σ : Type} (service : Service σ) (c : TestCase) (settings : Json) (s : σ) :
    Outcome σ Verdict :=
  match service.configure (.ofCase c settings) s with
  | (.error e, s) => (.error e, s)
  | (.ok (), s) =>
    match service.prepare s with
    | (.error e, s) => (.error e, s)
    | (.ok (), s) =>
      match service.complete (.ofCase c) s with
      | (.error e, s) => (.error e, s)
      | (.ok reply, s) => (.ok (verdict c reply), s)

end CompletionCheck.Service
