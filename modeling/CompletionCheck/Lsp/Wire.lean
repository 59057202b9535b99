import CompletionCheck.Lsp.Client
import CompletionCheck.Lsp.Reader

/-!
# The incoming side of a connection

Bytes that the other side has written are in flight until they are let through; the reader then
turns them into messages.  The stream ends when the other side has closed it and everything
written before has been let through, or when the reader has stopped.
-/

namespace CompletionCheck.Lsp

structure Wire where
  reader : Reader := .start
  /-- What was written and not let through, in order. -/
  inFlight : List UInt8 := []
  /-- Whether nothing more is written. -/
  closed : Bool := false

namespace Wire

/-- The other side writes bytes; after closing it cannot. -/
def write (w : Wire) (bytes : List UInt8) : Wire :=
  if w.closed then w else { w with inFlight := w.inFlight ++ bytes }

def close (w : Wire) : Wire :=
  { w with closed := true }

/-- Lets everything in flight through. -/
def release (w : Wire) : Arrival × Wire :=
  let (reader, messages) := w.reader.feed w.inFlight
  let stopped :=
    match reader with
    | .stopped _ => true
    | _ => false
  ({ messages, ended := stopped || w.closed }, { w with reader, inFlight := [] })

end Wire

end CompletionCheck.Lsp
