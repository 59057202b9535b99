import CompletionCheck.Service.Basic
import CompletionCheck.Text.Utf8

/-!
# A service that follows a script

An in-memory service for trying a suite without a language server.  It answers from a script,
which may look at the configured text and the question, and it keeps a record of what it was asked
to do.  Once disconnected it fails every operation and records nothing more.
-/

namespace CompletionCheck.Service

/-- How a scripted service chooses its answers. -/
inductive Script
  /-- The same answer always. -/
  | always (reply : Reply)
  /-- The answers in turn, from the beginning again after the last. -/
  | inTurn (replies : List Reply)
  /-- The answer of the first row with which the configured text up to the cursor ends. -/
  | bySuffix (rows : List (String × Reply))
deriving Repr

/-- An operation that was asked for. -/
inductive Call
  | configure (file text : String)
  | prepare
  | complete (file : String) (cursor : Nat)
deriving DecidableEq, Repr

def Call.isQuestion : Call → Bool
  | .complete .. => true
  | _ => false

structure ScriptState where
  script : Script
  /-- The operations so far. -/
  calls : List Call := []
  settings : Option Json := none
  text : Option String := none
  /-- The answers given so far. -/
  answered : Nat := 0
  connected : Bool := true

/-- The first `n` bytes of a text; nothing when they are not whole characters of it. -/
def textBefore (cs : List Char) (n : Nat) : List Char :=
  (Text.decode? ((Text.encode cs).take n)).filter (Text.byteLength · = n) |>.getD []

/-- The answer of a script to its question number `turn`. -/
def Script.answer (script : Script) (turn : Nat) (text : String) (request : Request) : Reply :=
  match script with
  | .always reply => reply
  | .inTurn replies => (replies[turn % replies.length]?).getD (.completions [])
  | .bySuffix rows =>
    let before := textBefore text.toList request.cursor
    match rows.find? fun row => row.1.toList.isSuffixOf before with
    | some row => row.2
    | none => .completions []

namespace ScriptState

def start (script : Script) : ScriptState := { script }

def disconnect (s : ScriptState) : ScriptState := { s with connected := false }

def requests (s : ScriptState) : Nat :=
  s.calls.countP Call.isQuestion

def whenConnected {α : Type} (s : ScriptState) (act : Outcome ScriptState α) :
    Outcome ScriptState α :=
  if s.connected then act else (.error .exited, s)

end ScriptState

/-- The service that follows the script in its state. -/
def scripted : Service ScriptState where
  configure options s :=
    s.whenConnected
      (let text := options.text.getD ""
      (.ok (), { s with
        calls := s.calls ++ [.configure options.fileName text]
        text := some text
        settings := some options.settings }))
  prepare s := s.whenConnected (.ok (), { s with calls := s.calls ++ [.prepare] })
  complete request s :=
    s.whenConnected
      (let s := { s with calls := s.calls ++ [Call.complete request.fileName request.cursor] }
      match s.text with
      | none => (.error (.protocol .notConfigured), s)
      | some text =>
        (.ok (s.script.answer s.answered text request), { s with answered := s.answered + 1 }))

end CompletionCheck.Service
