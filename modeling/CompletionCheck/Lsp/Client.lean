import CompletionCheck.Lsp.Message
import CompletionCheck.Service.Basic

/-!
# The client side of a connection

A client writes messages and takes incoming ones from its inbox, which a reader fills.  It has one
request open at a time.  Requests are numbered from one on, and only the response with the number
of the open request answers it; every other response is dropped.  Requests of the other side are
answered with `null` as they are met.  Notifications met on the way are kept, the newest
`maxKept` of them, for a later wait; those met by a wait that looks for something else are not.

Time enters as an `Arrival`: what reaches the inbox after an operation has written and before it
gives up waiting.  An operation that empties the inbox without finding what it waits for has run
out of time, or, when nothing can arrive any more, knows that the other side has gone.
-/

namespace CompletionCheck.Lsp

open Service (Outcome)

/-- What reaches a client during a wait. -/
structure Arrival where
  messages : List Json := []
  /-- Whether the incoming stream ends after these messages. -/
  ended : Bool := false

/-- A client between two operations.  All that it has written and all that it has not looked at is
part of the state, so what a run has said and what it has left can be read off the client that
comes out. -/
structure Client where
  /-- The number of the next request. -/
  nextId : Nat := 1
  /-- The notifications kept for later, the oldest first. -/
  kept : List Notification := []
  /-- What has arrived and was not looked at. -/
  inbox : List Json := []
  /-- Whether nothing arrives any more. -/
  ended : Bool := false
  /-- How many more messages can be written, when there is a limit. -/
  writesLeft : Option Nat := none
  /-- The messages written so far. -/
  written : List Json := []

namespace Client

/-- The number of notifications that are kept. -/
def maxKept : Nat := 256

def deliver (c : Client) (a : Arrival) : Client :=
  { c with inbox := c.inbox ++ a.messages, ended := c.ended || a.ended }

/-- Writes a message; fails when the other side takes nothing any more. -/
def write (c : Client) (message : Json) : Outcome Client Unit :=
  match c.writesLeft with
  | some 0 => (.error (.io .brokenPipe), c)
  | some (n + 1) => (.ok (), { c with writesLeft := some n, written := c.written ++ [message] })
  | none => (.ok (), { c with written := c.written ++ [message] })

def notify (c : Client) (method : String) (params : Json) : Outcome Client Unit :=
  c.write (notificationValue method params)

def answer (c : Client) (id : Id) : Outcome Client Unit :=
  c.write (nullAnswer id)

/-- Keeps a notification; the oldest gives way when there are too many. -/
def keep (c : Client) (n : Notification) : Client :=
  { c with kept := (if c.kept.length = maxKept then c.kept.drop 1 else c.kept) ++ [n] }

def leave (c : Client) (rest : List Json) : Client :=
  { c with inbox := rest }

/-! ## Requests -/

/-- Writes a request and gives its number. -/
def send (c : Client) (method : String) (params : Json) : Outcome Client Nat :=
  match { c with nextId := c.nextId + 1 }.write (requestValue c.nextId method params) with
  | (.ok (), d) => (.ok c.nextId, d)
  | (.error e, d) => (.error e, d)

/-- Goes through incoming messages for the response with a number.  Notifications on the way are
kept, requests are answered, and every other response is dropped. -/
def findResponse (method : String) (limit id : Nat) :
    List Json → Client → Outcome Client (Except RpcError Json)
  | [], c =>
    (.error (if c.ended then .exited else .timeout method limit), c.leave [])
  | m :: rest, c =>
    match Message.ofJson? m with
    | none => (.error (.protocol .undecodableMessage), c.leave rest)
    | some (.response rid result) =>
      if rid = .number id then (.ok result, c.leave rest)
      else findResponse method limit id rest c
    | some (.notification n) => findResponse method limit id rest (c.keep n)
    | some (.request rid _ _) =>
      match c.answer rid with
      | (.ok (), c) => findResponse method limit id rest c
      | (.error e, c) => (.error e, c.leave rest)

/-- Waits for the response with a number; `limit` is the time limit that a failure names. -/
def awaitResponse (c : Client) (method : String) (limit id : Nat) :
    Outcome Client (Except RpcError Json) :=
  findResponse method limit id c.inbox c

def request (c : Client) (method : String) (params : Json) (limit : Nat) (a : Arrival) :
    Outcome Client (Except RpcError Json) :=
  match c.send method params with
  | (.error e, c) => (.error e, c)
  | (.ok id, c) => (c.deliver a).awaitResponse method limit id

/-! ## Notifications -/

/-- Whether a notification has a name and parameters that are accepted. -/
def fits (method : String) (accept : Json → Bool) (n : Notification) : Bool :=
  n.method == method && n.params.any accept

/-- Goes through incoming messages for a notification.  Unlike the loop for a response it drops the
notifications that it passes. -/
def findNotification (method : String) (accept : Json → Bool) :
    List Json → Client → Outcome Client (Option Json)
  | [], c => (if c.ended then .error .exited else .ok none, c.leave [])
  | m :: rest, c =>
    match Message.ofJson? m with
    | none => (.error (.protocol .undecodableMessage), c.leave rest)
    | some (.response _ _) => findNotification method accept rest c
    | some (.notification n) =>
      if fits method accept n then (.ok (some (n.params.getD .null)), c.leave rest)
      else findNotification method accept rest c
    | some (.request rid _ _) =>
      match c.answer rid with
      | (.ok (), c) => findNotification method accept rest c
      | (.error e, c) => (.error e, c.leave rest)

/-- Takes the first notification out of a list that satisfies a condition. -/
def takeFirst? (p : Notification → Bool) :
    List Notification → Option (Notification × List Notification)
  | [] => none
  | n :: rest =>
    if p n then some (n, rest) else (takeFirst? p rest).map fun (found, left) => (found, n :: left)

/-- The parameters of a notification that is kept already, which is kept no longer. -/
def takeKept? (c : Client) (method : String) (accept : Json → Bool) : Option (Json × Client) :=
  (takeFirst? (fits method accept) c.kept).map fun (n, kept) =>
    (n.params.getD .null, { c with kept })

/-- Waits for a notification: the first of the kept ones that fits, or else the first incoming
one.  The result is its parameters, none when the time was up. -/
def wait (c : Client) (method : String) (accept : Json → Bool) (a : Arrival) :
    Outcome Client (Option Json) :=
  match c.takeKept? method accept with
  | some (params, c) => (.ok (some params), c.deliver a)
  | none => findNotification method accept (c.deliver a).inbox (c.deliver a)

/-- Takes in all incoming messages without waiting for more. -/
def drain : List Json → Client → Outcome Client Unit
  | [], c => (.ok (), c.leave [])
  | m :: rest, c =>
    match Message.ofJson? m with
    | none => (.error (.protocol .undecodableMessage), c.leave rest)
    | some (.response _ _) => drain rest c
    | some (.notification n) => drain rest (c.keep n)
    | some (.request rid _ _) =>
      match c.answer rid with
      | (.ok (), c) => drain rest c
      | (.error e, c) => (.error e, c.leave rest)

/-- Takes in what has arrived and drops the notifications that fit, so that none that arrived
before is ever found. -/
def forget (c : Client) (method : String) (discard : Json → Bool) : Outcome Client Unit :=
  match drain c.inbox c with
  | (.error e, c) => (.error e, c)
  | (.ok (), c) =>
    (.ok (), { c with kept := c.kept.filter fun n => !fits method discard n })

end Client

end CompletionCheck.Lsp
