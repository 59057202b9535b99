import CompletionCheck.CommandLine
import CompletionCheck.Config.Load
import CompletionCheck.Lsp.Rehearsal
import CompletionCheck.Suite.Report
import CompletionCheck.Text.Blank

/-!
# Carrying out a command

A command is carried out in its surroundings: the files, the working directory, and what starting a
language server gives.  First the configuration is loaded, then the fixtures are found; `list`
prints what was found, and `run` starts the server and runs the checks.  What keeps a command from
being carried out is found before anything is printed; checks that do not pass are no failure of
the command, but it does not end in success.
-/

namespace CompletionCheck.Program

open CommandLine (Command Common)

/-- What a command is carried out in.  A command sees nothing else of the machine, so what comes of
it follows from these three. -/
structure Surroundings where
  files : Files.Tree
  /-- The path of the working directory. -/
  cwd : String
  /-- What starting a command with arguments gives. -/
  launch : String → List String → Except ServiceError Lsp.PeerScript

/-- Why a command could not be carried out.  A check that does not pass is no such reason: it is
among the results. -/
inductive Failure
  | config (e : Config.LoadError)
  /-- No directory of fixtures is given. -/
  | noCases
  /-- No language server is given. -/
  | noServer
  | scan (e : Suite.ScanError)
  | service (e : ServiceError)
deriving DecidableEq, Repr

def Failure.diagnosis : Failure → Diagnosis
  | .config e => e.diagnosis
  | .noCases =>
    { message := "no cases directory given", code := "cli::no_cases"
      help := some "pass CASES_DIR or set `cases` in harness.toml" }
  | .noServer =>
    { message := "no language server command given", code := "cli::no_server"
      help := some "pass --server or set `[server] command` in harness.toml" }
  | .scan e => e.diagnosis
  | .service e => e.diagnosis

structure Finished where
  /-- Whether everything was as it should be. -/
  success : Bool
  /-- What was printed. -/
  output : String
  /-- The reports about what was not as it should be. -/
  reports : List Suite.Report
  notices : List Notice
deriving DecidableEq

def Finished.exitCode (f : Finished) : Nat := if f.success then 0 else 1

/-- A configuration and the directory from which its paths are seen. -/
structure Loaded where
  config : Config
  dir : String

/-- Loads the configuration that is given, or the nearest one that is found, or the empty one. -/
def load (s : Surroundings) (given : Option String) : Except Failure Loaded :=
  match given.or (Config.find? s.files s.cwd) with
  | none => .ok ⟨{}, s.cwd⟩
  | some path =>
    match Config.load s.files path with
    | .error e => .error (.config e)
    | .ok config => .ok ⟨config, (Path.parent? path).getD s.cwd⟩

def configPlaces (cwd : String) (given : Option String) : List String :=
  match given with
  | some path => [path]
  | none => Config.placesFor cwd

/-- The directory of the fixtures: the one that is given, or the configured one. -/
def casesDir? (c : Common) (loaded : Loaded) : Option String :=
  c.casesDir.or (loaded.config.casesDir? loaded.dir)

def discover (s : Surroundings) (c : Common) (loaded : Loaded) :
    Except Failure (Suite × List Notice) :=
  match casesDir? c loaded with
  | none => .error .noCases
  | some dir =>
    match Suite.discover s.files dir with
    | .error e => .error (.scan e)
    | .ok found => .ok found

/-! ## Listing -/

def describe (check : Suite.Check) : String :=
  match check.kind with
  | .ofCase c =>
    check.name ++ "\n    line " ++ toString c.lineNumber ++ ", cursor " ++ toString c.cursor ++
      ": expect [" ++ ", ".intercalate c.expected ++ "], reject [" ++
      ", ".intercalate c.unwanted.symbols ++ "]\n"
  | .broken _ => check.name ++ "\n"

def describeSkipped (f : Suite.Skipped) : String :=
  "skipped " ++ f.path ++ " (" ++ f.reason.name ++ ")\n"

/-- The reports about the checks of a suite that are broken from the start. -/
def brokenReports (t : Files.Tree) (suite : Suite) : List Suite.Report :=
  suite.checks.filterMap fun check =>
    match check.kind with
    | .ofCase _ => none
    | .broken _ => Suite.report? t check .broken

def list (s : Surroundings) (c : Common) : Except Failure Finished := do
  let loaded ← load s c.config
  let (suite, notices) ← discover s c loaded
  let reports := brokenReports s.files suite
  return {
    success := reports.isEmpty
    output := String.join (suite.checks.map describe ++ suite.scan.skipped.map describeSkipped)
    reports, notices }

/-! ## Running -/

/-- The command that starts the server, with its arguments: the words of the line that is given,
or what is configured. -/
def serverCommand (given : Option String) (config : Config) :
    Except Failure (String × List String) :=
  match given with
  | some line =>
    match (Text.words line.toList).map String.ofList with
    | [] => .error .noServer
    | command :: args => .ok (command, args)
  | none =>
    match config.server.command with
    | none => .error .noServer
    | some command => .ok (command, config.server.args)

def start (s : Surroundings) (command : String × List String) (loaded : Loaded) :
    Except Failure Lsp.Rehearsal := do
  let script ← (s.launch command.1 command.2).mapError .service
  let options := loaded.config.sessionOptions loaded.dir
  (Lsp.Rehearsal.connect script s.cwd options loaded.config.settings).1.mapError .service

/-- Ends the session with the server; gives all notices of the session. -/
def close (r : Lsp.Rehearsal) : List Notice :=
  let (result, r) := r.shutdown
  r.notices ++
    match result with
    | .error e => [.warn ("language server shutdown failed: " ++ e.diagnosis.message)]
    | .ok () =>
      if r.partner.peer.script.outstays r.session.options.requestLimit then
        [.warn "language server did not exit; killing it"]
      else []

def run (s : Surroundings) (c : Common) (server filter : Option String) :
    Except Failure Finished := do
  let loaded ← load s c.config
  let (suite, notices) ← discover s c loaded
  let suite := match filter with
    | some text => suite.filter text
    | none => suite
  let command ← serverCommand server loaded.config
  let rehearsal ← start s command loaded
  let (events, rehearsal) := suite.run Lsp.Rehearsal.service loaded.config.settings rehearsal
  return {
    success := (Suite.finalTally events).isSuccess
    output := Suite.console events
    reports := Suite.reports s.files events
    notices := notices ++ close rehearsal }

def perform (s : Surroundings) : Command → Except Failure Finished
  | .list c => list s c
  | .run c server filter => run s c server filter

end CompletionCheck.Program
