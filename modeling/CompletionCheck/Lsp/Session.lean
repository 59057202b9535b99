import CompletionCheck.Lsp.Client
import CompletionCheck.Lsp.Item
import CompletionCheck.Lsp.Position
import CompletionCheck.Lsp.Uri

/-!
# A session with a language server

A session makes a completion service of a language server.  The file of each dialect is one
document: it is opened at version 1 when it is first configured, and from then on every
configuration replaces its whole text and raises its version by one.  The server has taken the
text in when it publishes diagnostics for it, so preparing means waiting for diagnostics of this
document that do not name another version.  Diagnostics that arrived before the text was sent are
forgotten in the configuration itself.  A server that stays silent is asked all the same.

Every operation that writes and then waits comes in two halves, so that what arrives in between
can depend on what was written; the whole operation takes that as an `Arrival`.
-/

namespace CompletionCheck.Lsp

open Service (Outcome Reply Request)

/-- How a session is held.  Limits are milliseconds. -/
structure Options where
  /-- The directory under which the documents lie. -/
  root : String := "."
  readyLimit : Nat := 5000
  requestLimit : Nat := 10000
  names : NameFields := {}
  /-- The process whose end should end the server, when it is told one. -/
  processId : Option Nat := none
deriving DecidableEq, Repr

structure Document where
  uri : String
  version : Nat
deriving DecidableEq, Repr

/-- A session between two calls.  The URI of an open document never changes; its version goes up
with every text that is to be sent, also when the text cannot be written. -/
structure Session where
  client : Client
  rootUri : String
  options : Options
  /-- The open documents by the names of their files. -/
  documents : List (String × Document) := []
  /-- The file that was configured last. -/
  current : Option String := none

/-- What a session found out about the server's readiness. -/
inductive Readiness
  | ready
  /-- No diagnostics within the limit. -/
  | silent
deriving DecidableEq, Repr

namespace Session

/-- The notification by which a server shows that it has taken a text in. -/
def diagnosticsMethod : String := "textDocument/publishDiagnostics"

def withClient (s : Session) (c : Client) : Session := { s with client := c }

def deliver (s : Session) (a : Arrival) : Session := s.withClient (s.client.deliver a)

/-- Puts a document in, in place of one with the same name. -/
def putDocument (name : String) (d : Document) : List (String × Document) → List (String × Document)
  | [] => [(name, d)]
  | (n, e) :: rest =>
    if n = name then (name, d) :: rest else (n, e) :: putDocument name d rest

/-! ## Connecting -/

/-- What a session tells a server about itself. -/
def greetingParams (uri : String) (o : Options) (settings : Json) : Json :=
  .ofMembers
    [("processId", match o.processId with | some id => .int id | none => .null),
     ("rootUri", .str uri),
     ("capabilities", .ofMembers
       [("textDocument", .ofMembers
          [("completion", .ofMembers
              [("completionItem", .ofMembers [("snippetSupport", .bool false)])]),
           ("publishDiagnostics", .ofMembers [("versionSupport", .bool true)])]),
        ("workspace", .ofMembers [("configuration", .bool true)])]),
     ("initializationOptions", settings)]

/-- Sends the first request; gives its number. -/
def greet (client : Client) (uri : String) (o : Options) (settings : Json) : Outcome Client Nat :=
  client.send "initialize" (greetingParams uri o settings)

/-- Waits for the answer to the first request and confirms it. -/
def welcome (client : Client) (uri : String) (options : Options) (id : Nat) :
    Except ServiceError Session × Client :=
  match client.awaitResponse "initialize" options.requestLimit id with
  | (.error e, c) => (.error e, c)
  | (.ok (.error e), c) => (.error (.protocol (.initializeRefused e.text)), c)
  | (.ok (.ok _), c) =>
    match c.notify "initialized" (.obj []) with
    | (.error e, c) => (.error e, c)
    | (.ok (), c) => (.ok { client := c, rootUri := uri, options }, c)

/-- Begins a session over a fresh client; `cwd` is the working directory. -/
def connect (client : Client) (cwd : String) (options : Options) (settings : Json) (a : Arrival) :
    Except ServiceError Session × Client :=
  let uri := Lsp.rootUri cwd options.root
  match greet client uri options settings with
  | (.error e, c) => (.error e, c)
  | (.ok id, c) => welcome (c.deliver a) uri options id

/-! ## Configuring -/

def openParams (uri : String) (d : Dialect) (text : String) : Json :=
  .ofMembers [("textDocument", .ofMembers
    [("uri", .str uri), ("languageId", .str d.languageId), ("version", .int 1),
     ("text", .str text)])]

def changeParams (uri : String) (version : Nat) (text : String) : Json :=
  .ofMembers
    [("textDocument", .ofMembers [("uri", .str uri), ("version", .int version)]),
     ("contentChanges", .arr [.ofMembers [("text", .str text)]])]

/-- Sends the text of a file, the first time as a new document; gives the document's URI. -/
def syncText (s : Session) (d : Dialect) (text : String) : Outcome Session String :=
  let name := d.fileName
  match s.documents.lookup name with
  | some doc =>
    let version := doc.version + 1
    let s := { s with documents := putDocument name { doc with version } s.documents }
    match s.client.notify "textDocument/didChange" (changeParams doc.uri version text) with
    | (.error e, c) => (.error e, s.withClient c)
    | (.ok (), c) => (.ok doc.uri, s.withClient c)
  | none =>
    let uri := resolveUri s.rootUri name
    match s.client.notify "textDocument/didOpen" (openParams uri d text) with
    | (.error e, c) => (.error e, s.withClient c)
    | (.ok (), c) =>
      (.ok uri, { s with client := c, documents := putDocument name ⟨uri, 1⟩ s.documents })

/-- Sends the settings, and the text if there is one; gives the document's URI. -/
def sync (s : Session) (o : Service.Options) : Outcome Session String :=
  match s.client.notify "workspace/didChangeConfiguration"
      (.ofMembers [("settings", o.settings)]) with
  | (.error e, c) => (.error e, s.withClient c)
  | (.ok (), c) =>
    match o.text with
    | none => (.error (.protocol (.noSource o.fileName)), s.withClient c)
    | some text => (s.withClient c).syncText o.dialect text

def isAbout (uri : String) (params : Json) : Bool :=
  (params.memberD "uri").text? == some uri

/-- Forgets the diagnostics about a document and makes its file the current one. -/
def settle (s : Session) (file uri : String) : Outcome Session Unit :=
  match s.client.forget diagnosticsMethod (isAbout uri) with
  | (.error e, c) => (.error e, s.withClient c)
  | (.ok (), c) => (.ok (), { s with client := c, current := some file })

/-- Configures the service; `a` arrives between the sending of the text and the forgetting of old
diagnostics. -/
def configure (s : Session) (o : Service.Options) (a : Arrival) : Outcome Session Unit :=
  match s.sync o with
  | (.error e, s) => (.error e, s)
  | (.ok uri, s) => (s.deliver a).settle o.fileName uri

/-! ## Preparing -/

/-- The document that was configured last. -/
def currentDocument? (s : Session) : Option Document :=
  s.current.bind fun name => s.documents.lookup name

/-- Whether diagnostics show that the server has taken in a version of a document.  Diagnostics
without a whole number for a version are taken at their word. -/
def shows (d : Document) (params : Json) : Bool :=
  isAbout d.uri params &&
    match (params.memberD "version").signed64? with
    | some v => v == (d.version : Int)
    | none => true

/-- Waits until the server has taken in the document that was configured last; `a` arrives during
the wait. -/
def prepare (s : Session) (a : Arrival) : Outcome Session Readiness :=
  match s.currentDocument? with
  | none => (.ok .ready, s.deliver a)
  | some d =>
    match s.client.wait diagnosticsMethod (shows d) a with
    | (.error e, c) => (.error e, s.withClient c)
    | (.ok (some _), c) => (.ok .ready, s.withClient c)
    | (.ok none, c) => (.ok .silent, s.withClient c)

def silenceNotice (s : Session) : Notice :=
  let uri := (s.currentDocument?.map (·.uri)).getD ""
  .warn ("no diagnostics for " ++ uri ++ " within " ++ Time.durationText s.options.readyLimit ++
    "; requesting completions anyway")

/-! ## Completing -/

def completionParams (uri : String) (p : Position) : Json :=
  .ofMembers
    [("textDocument", .ofMembers [("uri", .str uri)]),
     ("position", .ofMembers [("line", .int p.line), ("character", .int p.character)]),
     ("context", .ofMembers [("triggerKind", .int 1)])]

def completionMethod : String := "textDocument/completion"

/-- Sends a question; gives its number.  The position is found by walking over the text.  About a
text of less than 2³² bytes a table of its lines gives the same position, in 32 bits
(`written_ask_of_table`). -/
def ask (s : Session) (r : Request) : Outcome Session Nat :=
  let uri := resolveUri s.rootUri r.fileName
  let position := Position.ofOffset r.text.toList r.cursor
  match s.client.send completionMethod (completionParams uri position) with
  | (.error e, c) => (.error e, s.withClient c)
  | (.ok id, c) => (.ok id, s.withClient c)

def replyOf (names : NameFields) : Except RpcError Json → Except ServiceError Reply
  | .error e => .ok (.failed e.message)
  | .ok result =>
    match names.candidates? result with
    | some candidates => .ok (.completions candidates)
    | none => .error (.protocol .badCompletionResult)

def awaitReply (s : Session) (id : Nat) : Outcome Session Reply :=
  match s.client.awaitResponse completionMethod s.options.requestLimit id with
  | (.error e, c) => (.error e, s.withClient c)
  | (.ok result, c) => (replyOf s.options.names result, s.withClient c)

/-- Asks for completions; `a` arrives between the question and the end of the wait. -/
def complete (s : Session) (r : Request) (a : Arrival) : Outcome Session Reply :=
  match s.ask r with
  | (.error e, s) => (.error e, s)
  | (.ok id, s) => (s.deliver a).awaitReply id

/-! ## Closing -/

/-- Waits for the answer to the request to shut down and takes leave.  A server that refused is
left all the same, with a notice. -/
def takeLeave (c : Client) (limit id : Nat) : Outcome Client Unit × List Notice :=
  match c.awaitResponse "shutdown" limit id with
  | (.error e, c) => ((.error e, c), [])
  | (.ok (.ok _), c) => (c.notify "exit" .null, [])
  | (.ok (.error e), c) =>
    (c.notify "exit" .null, [.warn ("language server refused shutdown: " ++ e.text)])

def shutdown (c : Client) (limit : Nat) (a : Arrival) : Outcome Client Unit × List Notice :=
  match c.send "shutdown" .null with
  | (.error e, c) => ((.error e, c), [])
  | (.ok id, c) => takeLeave (c.deliver a) limit id

end Session

end CompletionCheck.Lsp
