import CompletionCheck.Lsp.Session
import CompletionCheck.Path
import CompletionCheck.Toml.Document

/-!
# The configuration of a suite

A configuration says where the fixtures lie, how the language server is started, in which fields
of a completion item the names stand, and which settings the server is given.  Everything in it has
a default, so the empty document is a configuration.  A key that has no meaning is refused, so that
a misspelt key cannot go unnoticed; only the settings for the server may hold anything.

The entries of a document are taken in their order, and the first one that cannot be taken decides
what is wrong with it.  A table with fixed keys may also be written as the array of its values, in
the order in which `Server.keys` and `Config.nameKeys` list them.
-/

namespace CompletionCheck

/-- How the language server is started and how long it is waited for.  Limits are milliseconds. -/
structure Config.Server where
  command : Option String := none
  args : List String := []
  /-- The directory under which the documents lie, seen from the configuration. -/
  root : String := "."
  readyLimit : Nat := 5000
  requestLimit : Nat := 10000
deriving DecidableEq, Repr

structure Config where
  /-- The directory of the fixtures, seen from the configuration. -/
  cases : Option String := none
  server : Config.Server := {}
  names : Lsp.NameFields := {}
  /-- What the server is given, as it is. -/
  settings : Json := .null

end CompletionCheck

namespace CompletionCheck.Config

/-- What is wrong with a document. -/
inductive Fault
  /-- A text that should name a field of a completion item names none. -/
  | unknownField (e : Lsp.UnknownField)
  /-- The document is malformed, a key has no meaning, or a value is of another kind. -/
  | malformed
deriving DecidableEq, Repr

/-! ## Values -/

def text : Toml.Value → Except Fault String
  | .string s => .ok s
  | _ => .error .malformed

def texts : Toml.Value → Except Fault (List String)
  | .array items => items.mapM text
  | _ => .error .malformed

def milliseconds : Toml.Value → Except Fault Nat
  | .integer n => if 0 ≤ n then .ok n.toNat else .error .malformed
  | _ => .error .malformed

def nameField (v : Toml.Value) : Except Fault Lsp.NameField := do
  match Lsp.NameField.parse (← text v) with
  | .ok f => .ok f
  | .error e => .error (.unknownField e)

def takeEntries {α : Type} (set : α → String → Toml.Value → Except Fault α) (start : α)
    (entries : List (String × Toml.Value)) : Except Fault α :=
  entries.foldlM (fun a e => set a e.1 e.2) start

/-- Takes the entries of a table in, or the items of an array as the values of `keys`. -/
def takeTable {α : Type} (set : α → String → Toml.Value → Except Fault α) (keys : List String)
    (start : α) : Toml.Value → Except Fault α
  | .table entries => takeEntries set start entries
  | .array items => takeEntries set start (keys.zip items)
  | _ => .error .malformed

/-! ## Tables -/

def Server.keys : List String :=
  ["command", "args", "root", "ready_timeout_ms", "request_timeout_ms"]

def Server.set (s : Server) (key : String) (v : Toml.Value) : Except Fault Server :=
  match key with
  | "command" => (text v).map fun command => { s with command := some command }
  | "args" => (texts v).map fun args => { s with args }
  | "root" => (text v).map fun root => { s with root }
  | "ready_timeout_ms" => (milliseconds v).map fun readyLimit => { s with readyLimit }
  | "request_timeout_ms" => (milliseconds v).map fun requestLimit => { s with requestLimit }
  | _ => .error .malformed

def nameKeys : List String := ["qualified", "dialect_qualified"]

def setName (names : Lsp.NameFields) (key : String) (v : Toml.Value) :
    Except Fault Lsp.NameFields :=
  match key with
  | "qualified" => (nameField v).map fun qualified => { names with qualified }
  | "dialect_qualified" => (nameField v).map fun f => { names with dialectQualified := some f }
  | _ => .error .malformed

def set (c : Config) (key : String) (v : Toml.Value) : Except Fault Config :=
  match key with
  | "cases" => (text v).map fun cases => { c with cases := some cases }
  | "server" => (takeTable Server.set Server.keys {} v).map fun server => { c with server }
  | "names" => (takeTable setName nameKeys {} v).map fun names => { c with names }
  | "settings" => .ok { c with settings := v.toJson }
  | _ => .error .malformed

def parse (document : String) : Except Fault Config :=
  match Toml.parse? document.toList with
  | some (.table entries) => takeEntries set {} entries
  | _ => .error .malformed

/-! ## Places -/

/-- The directory of the fixtures, for a configuration in a directory. -/
def casesDir? (c : Config) (dir : String) : Option String :=
  c.cases.map (Path.join dir)

/-- How a session with the server is held, for a configuration in a directory. -/
def sessionOptions (c : Config) (dir : String) : Lsp.Options where
  root := Path.join dir c.server.root
  readyLimit := c.server.readyLimit
  requestLimit := c.server.requestLimit
  names := c.names

end CompletionCheck.Config
