import CompletionCheck.Lsp.Peer
import CompletionCheck.Lsp.Session
import CompletionCheck.Lsp.Wire

/-!
# Rehearsing with a scripted server

A session and a scripted server, with the bytes between them.  There is no clock: what a server
writes reaches the client during the next wait with a time limit above zero, or when the operation
is over, and a wait that nothing in flight can end has run out of time.  What the server writes
about a text always arrives after the configuration that sent the text.
-/

namespace CompletionCheck.Lsp

open Service (Outcome Reply Request)

/-- The other side of a rehearsal: the server, what it has written, and how many of the client's
messages it has taken in. -/
structure Partner where
  peer : Peer
  wire : Wire := {}
  taken : Nat := 0

namespace Partner

def act (p : Partner) (c : Client) : Partner :=
  let (bytes, peer) := p.peer.receiveAll (c.written.drop p.taken)
  let wire := p.wire.write bytes
  { peer, wire := if peer.gone then wire.close else wire, taken := c.written.length }

/-- What a wait with a time limit brings, when the server first acts on what was written. -/
def during (p : Partner) (c : Client) (limit : Nat) : Arrival × Partner :=
  let p := p.act c
  if limit = 0 then ({}, p)
  else
    let (a, wire) := p.wire.release
    (a, { p with wire })

end Partner

/-- A session and its scripted server as one state.  Each acts only while the other waits, so a
rehearsal has one course and no clock. -/
structure Rehearsal where
  session : Session
  partner : Partner
  /-- The notices so far. -/
  notices : List Notice := []

namespace Rehearsal

def connect (script : PeerScript) (cwd : String) (o : Options) (settings : Json) :
    Except ServiceError Rehearsal × Client :=
  let uri := rootUri cwd o.root
  match Session.greet {} uri o settings with
  | (.error e, c) => (.error e, c)
  | (.ok id, c) =>
    let (a, partner) := Partner.during ⟨{ script }, {}, 0⟩ c o.requestLimit
    match Session.welcome (c.deliver a) uri o id with
    | (.error e, c) => (.error e, c)
    | (.ok session, c) => (.ok { session, partner := partner.act c }, c)

def configure (o : Service.Options) (r : Rehearsal) : Outcome Rehearsal Unit :=
  let (result, session) := r.session.configure o {}
  (result, { r with session, partner := r.partner.act session.client })

def prepare (r : Rehearsal) : Outcome Rehearsal Unit :=
  let (a, partner) := r.partner.during r.session.client r.session.options.readyLimit
  match r.session.prepare a with
  | (.error e, session) => (.error e, { r with session, partner })
  | (.ok .ready, session) => (.ok (), { r with session, partner })
  | (.ok .silent, session) =>
    (.ok (), { r with session, partner, notices := r.notices ++ [session.silenceNotice] })

def complete (request : Request) (r : Rehearsal) : Outcome Rehearsal Reply :=
  match r.session.ask request with
  | (.error e, session) => (.error e, { r with session })
  | (.ok id, session) =>
    let (a, partner) := r.partner.during session.client session.options.requestLimit
    let (result, session) := (session.deliver a).awaitReply id
    (result, { r with session, partner })

def service : Service Rehearsal where
  configure := configure
  prepare := prepare
  complete := complete

/-- Lets everything in flight reach the client. -/
def settle (r : Rehearsal) : Rehearsal :=
  let partner := r.partner.act r.session.client
  let (a, wire) := partner.wire.release
  { r with session := r.session.deliver a, partner := { partner with wire } }

def shutdown (r : Rehearsal) : Outcome Rehearsal Unit :=
  match r.session.client.send "shutdown" .null with
  | (.error e, c) => (.error e, { r with session := r.session.withClient c })
  | (.ok id, c) =>
    let limit := r.session.options.requestLimit
    let (a, partner) := r.partner.during c limit
    let ((result, c), notices) := Session.takeLeave (c.deliver a) limit id
    (result, { r with
      session := r.session.withClient c
      partner := partner.act c
      notices := r.notices ++ notices })

end Rehearsal

end CompletionCheck.Lsp
