import CompletionCheck.Candidate
import CompletionCheck.Fixture.Case
import CompletionCheck.Json.Basic
import CompletionCheck.Service.Error

/-!
# Completion services

A completion service holds one configuration at a time.  It is configured with a project of one
file, given time to prepare, and asked for completions at a place in that file.  A service is its
three operations on a state; whatever answers them, whether a script in memory or a session with
a language server, is run in the same way.
-/

namespace CompletionCheck.Service

open Fixture (TestCase)

structure Options where
  /-- The text of the main file, when there is one. -/
  text : Option String
  dialect : Dialect
  /-- Settings of the caller, passed through as they are. -/
  settings : Json

def Options.fileName (o : Options) : String :=
  o.dialect.fileName

/-- The project that consists of the fixture of a case alone. -/
def Options.ofCase (c : TestCase) (settings : Json) : Options :=
  ⟨some c.text, c.dialect, settings⟩

/-- A question for completions.  Offsets are bytes of the text. -/
structure Request where
  fileName : String
  cursor : Nat
  wordStart : Nat
  wordEnd : Nat
  text : String
deriving DecidableEq, Repr

def Request.ofCase (c : TestCase) : Request :=
  ⟨c.dialect.fileName, c.cursor, c.wordStart, c.wordEnd, c.text⟩

/-- What a service answers: a list, or the report that it failed. -/
inductive Reply
  | completions (candidates : List Candidate)
  | failed (message : String)
deriving DecidableEq, Repr

/-- The outcome of an operation: an answer or a failure, and the state after either. -/
abbrev Outcome (σ α : Type) := Except ServiceError α × σ

end CompletionCheck.Service

namespace CompletionCheck

open Service in
/-- The operations of a completion service with states in `σ`. -/
structure Service (σ : Type) where
  configure : Options → σ → Outcome σ Unit
  prepare : σ → Outcome σ Unit
  complete : Request → σ → Outcome σ Reply

end CompletionCheck
