import CompletionCheck.Config.Basic
import CompletionCheck.Files.Tree
import CompletionCheck.Notice

/-!
# Finding and reading a configuration

The configuration of a directory is the file `harness.toml` in it, or in the nearest directory
above it that has one.  A directory or a link that leads nowhere does not count, whatever its name.
-/

namespace CompletionCheck.Config

def fileName : String := "harness.toml"

/-- The files that may hold the configuration of a directory, the nearest first. -/
def placesFor (dir : String) : List String :=
  (Path.upward dir).map fun d => Path.join d fileName

def find? (t : Files.Tree) (dir : String) : Option String :=
  (placesFor dir).find? t.isFile

inductive LoadError
  | unreadable (path : String) (why : IoKind)
  | invalid (path : String) (fault : Fault)
deriving DecidableEq, Repr

/-- What failed, without the reason. -/
def LoadError.headline : LoadError → String
  | .unreadable path _ => "failed to read " ++ path
  | .invalid path _ => "invalid " ++ path

def LoadError.diagnosis (e : LoadError) : Diagnosis :=
  match e with
  | .unreadable _ why =>
    { message := e.headline ++ ": " ++ why.text, code := "cli::config::read" }
  | .invalid .. => { message := e.headline, code := "cli::config::parse" }

def load (t : Files.Tree) (path : String) : Except LoadError Config :=
  match t.readText path with
  | .error why => .error (.unreadable path why)
  | .ok document =>
    match parse document with
    | .error fault => .error (.invalid path fault)
    | .ok c => .ok c

end CompletionCheck.Config
