import CompletionCheck.Proofs.Lsp.SessionSteps

/-!
# Runs of a session

A run of a connected session is a list of calls.  Each call comes with what arrives in it, which is
free, so a run may meet any messages at any place.
-/

namespace CompletionCheck.Lsp.Session

open Service (Outcome Request)

inductive Call
  | configure (o : Service.Options) (a : Arrival)
  | prepare (a : Arrival)
  | complete (q : Request) (a : Arrival)
  /-- Messages arrive between two calls. -/
  | arrive (a : Arrival)

def Call.messages : Call → List Json
  | .configure _ a | .prepare a | .complete _ a | .arrive a => a.messages

/-- Makes a call, and drops what it gives but for a failure. -/
def Call.run (s : Session) : Call → Outcome Session Unit
  | .configure o a => s.configure o a
  | .prepare a => ((s.prepare a).1.map fun _ => (), (s.prepare a).2)
  | .complete q a => ((s.complete q a).1.map fun _ => (), (s.complete q a).2)
  | .arrive a => (.ok (), s.deliver a)

def callResults : Session → List Call → List (Except ServiceError Unit)
  | _, [] => []
  | s, call :: rest => (call.run s).1 :: callResults (call.run s).2 rest

def afterCalls : Session → List Call → Session
  | s, [] => s
  | s, call :: rest => afterCalls (call.run s).2 rest

end CompletionCheck.Lsp.Session
