import CompletionCheck.Lsp.Frame

/-!
# A language server that follows a script

The other side of a connection, for rehearsing a suite without a real server.  It acts on each
message when the message reaches it: it answers the first request, the questions for completions
and the request to shut down with the replies of its script, publishes what the script says when a
document is opened or changed, and is gone after `exit`.  It may also write what is no message.
-/

namespace CompletionCheck.Lsp

/-- Something that a server writes: a message in its frame, or a text as it is. -/
inductive Utterance
  | message (v : Json)
  | raw (text : String)

def Utterance.bytes : Utterance → List UInt8
  | .message v => frame v
  | .raw text => Text.encode text.toList

inductive Answer
  | result (v : Json)
  | error (v : Json)
  | raw (text : String)
  | silent

/-- What a server writes on a request: something before the answer, and the answer. -/
structure PeerReply where
  before : List Utterance := []
  answer : Answer

/-- What a server says, and when.  Whether it keeps to the protocol is up to the script: a raw text
may be anything. -/
structure PeerScript where
  greeting : PeerReply := ⟨[], .result (.ofMembers [("capabilities", .obj [])])⟩
  /-- The replies to questions for completions, the last of which repeats. -/
  completions : List PeerReply := []
  /-- What is written when a document is opened or changed, the last repeating; without it,
  diagnostics for the document. -/
  onSync : Option (List (List Utterance)) := none
  farewell : PeerReply := ⟨[], .result .null⟩
  /-- Whether the server stays when it was told to exit. -/
  lingers : Bool := false

/-- How long a server stays that does not leave when it was told to, in milliseconds. -/
def PeerScript.lingerTime : Nat := 20000

/-- Whether a server is still there `limit` milliseconds after it was told to exit. -/
def PeerScript.outstays (s : PeerScript) (limit : Nat) : Bool :=
  s.lingers && limit < lingerTime

/-- A server in the course of its script.  It counts what it was asked and what it was sent, since a
script may answer the second time in another way than the first. -/
structure Peer where
  script : PeerScript
  /-- The questions for completions so far. -/
  asked : Nat := 0
  /-- The documents opened or changed so far. -/
  synced : Nat := 0
  gone : Bool := false

def atOrLast? {α : Type} (l : List α) (i : Nat) : Option α :=
  (l[i]?).or l.getLast?

mutual

/-- A value in which the texts `$uri` and `$version` stand for those of a document. -/
def fillDocument (uri version : Json) : Json → Json
  | .str s => if s = "$uri" then uri else if s = "$version" then version else .str s
  | .arr items => .arr (fillItems uri version items)
  | .obj members => .obj (fillMembers uri version members)
  | v => v

def fillItems (uri version : Json) : List Json → List Json
  | [] => []
  | v :: rest => fillDocument uri version v :: fillItems uri version rest

def fillMembers (uri version : Json) : List (String × Json) → List (String × Json)
  | [] => []
  | (key, v) :: rest => (key, fillDocument uri version v) :: fillMembers uri version rest

end

namespace PeerReply

/-- What a reply writes for the request with an identifier. -/
def utterances (r : PeerReply) (id : Json) : List Utterance :=
  r.before ++
    match r.answer with
    | .result v =>
      [.message (.ofMembers [("jsonrpc", .str "2.0"), ("id", id), ("result", v)])]
    | .error v =>
      [.message (.ofMembers [("jsonrpc", .str "2.0"), ("id", id), ("error", v)])]
    | .raw text => [.raw text]
    | .silent => []

end PeerReply

namespace Peer

/-- The diagnostics that a server publishes when its script does not say otherwise. -/
def plainDiagnostics : List Utterance :=
  [.message (.ofMembers
    [("jsonrpc", .str "2.0"), ("method", .str "textDocument/publishDiagnostics"),
     ("params", .ofMembers
       [("uri", .str "$uri"), ("version", .str "$version"), ("diagnostics", .arr [])])])]

def aboutDocument (p : Peer) (document : Json) : List Utterance :=
  let chosen :=
    match p.script.onSync with
    | none => plainDiagnostics
    | some lists => (atOrLast? lists p.synced).getD []
  chosen.map fun
    | .message v => .message (fillDocument (document.memberD "uri") (document.memberD "version") v)
    | .raw text => .raw text

/-- Takes a message in; gives what the server writes on it. -/
def receive (p : Peer) (message : Json) : List Utterance × Peer :=
  if p.gone then ([], p)
  else
    let id := message.memberD "id"
    match (message.memberD "method").text? with
    | none => ([], p)
    | some method =>
      if method = "initialize" then (p.script.greeting.utterances id, p)
      else if method = "shutdown" then (p.script.farewell.utterances id, p)
      else if method = "textDocument/completion" then
        let reply := (atOrLast? p.script.completions p.asked).getD ⟨[], .result (.arr [])⟩
        (reply.utterances id, { p with asked := p.asked + 1 })
      else if method = "textDocument/didOpen" || method = "textDocument/didChange" then
        let document := (message.memberD "params").memberD "textDocument"
        (p.aboutDocument document, { p with synced := p.synced + 1 })
      else if method = "exit" then ([], { p with gone := true })
      else ([], p)

/-- Takes messages in, one after the other; gives the bytes that the server writes. -/
def receiveAll (p : Peer) : List Json → List UInt8 × Peer
  | [] => ([], p)
  | m :: rest =>
    let (said, p) := p.receive m
    let (bytes, p) := p.receiveAll rest
    (said.flatMap Utterance.bytes ++ bytes, p)

end Peer

end CompletionCheck.Lsp
