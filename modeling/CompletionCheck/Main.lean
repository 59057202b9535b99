import CompletionCheck.Program

/-!
# The program

Gathers the files that a command looks at, carries it out, and prints what came of it.  Processes
are outside of this program: every command of a language server counts as one that cannot be
started.
-/

namespace CompletionCheck.Main

open CommandLine (Command)

/-- The target of a link that leads nowhere: a path at which there is no file. -/
def nowhere : List UInt8 := Files.slash :: List.replicate Files.maxNameLength 255

/-- The content of the file at a path as seen from the working directory, or the sign of a
directory. -/
def nodeAt (path : String) : IO Files.Node := do
  let place := (← IO.currentDir) / path
  if ← place.isDir then return .directory
  return .file (← IO.FS.readBinFile place).toList

/-- Adds what stands at a path to a tree.  A link is added with the place to which it leads in the
end. -/
def addEntry (t : Files.Tree) (path : String) : IO Files.Tree := do
  let place := (← IO.currentDir) / path
  let bytes := Files.Tree.pathBytes path
  try
    if (← place.symlinkMetadata).type matches .symlink then
      try
        let target := Files.Tree.pathBytes (← IO.FS.realPath place).toString
        return (t.make target (← nodeAt path)).make bytes (.link target)
      catch _ => return t.make bytes (.link nowhere)
    return t.make bytes (← nodeAt path)
  catch _ => return t

/-- Adds what stands at a path and above it to a tree. -/
def addPath (t : Files.Tree) (path : String) : IO Files.Tree :=
  (Path.upward path).reverse.foldlM addEntry t

/-- Adds a directory with everything directly inside it to a tree. -/
def addDirectory (t : Files.Tree) (path : String) : IO Files.Tree := do
  let t ← addPath t path
  try
    let inside ← ((← IO.currentDir) / path).readDir
    inside.toList.foldlM (fun t e => addEntry t (Path.join path e.fileName)) t
  catch _ => return t

def surroundings (files : Files.Tree) (cwd : String) : Program.Surroundings where
  files
  cwd
  launch _ _ := .error (.io .notFound)

/-- Gathers the files that a command looks at: first those that may hold the configuration, then
the directory that follows from it. -/
def gather (command : Command) : IO Program.Surroundings := do
  let cwd := (← IO.currentDir).toString
  let start : Files.Tree := { cwd := Files.splitPath (Files.Tree.pathBytes cwd) |>.drop 1 }
  let common := command.common
  let t ← addPath start cwd
  let t ← (Program.configPlaces cwd common.config).foldlM addPath t
  match Program.load (surroundings t cwd) common.config with
  | .error _ => return surroundings t cwd
  | .ok loaded =>
    match Program.casesDir? common loaded with
    | none => return surroundings t cwd
    | some dir => return surroundings (← addDirectory t dir) cwd

def perform (command : Command) : IO UInt32 := do
  match Program.perform (← gather command) command with
  | .error e =>
    IO.eprintln e.diagnosis.message
    if let some help := e.diagnosis.help then IO.eprintln ("help: " ++ help)
    return 1
  | .ok done =>
    IO.print done.output
    for report in done.reports do
      IO.eprintln report.line
    return done.exitCode.toUInt32

end CompletionCheck.Main

/-- Reads the command line and carries the command out. -/
def main (args : List String) : IO UInt32 := do
  match CompletionCheck.CommandLine.parse args with
  | .ok command => CompletionCheck.Main.perform command
  | .error stop =>
    IO.eprintln stop.name
    return stop.exitCode.toUInt32
