/-!
# The command line

There are two commands.  `run` and `list` both take a directory of fixtures and `--config`; `run`
also takes `--server` and `--filter`.  The value of an option stands behind `=` or in the next
word, and after `--` every word is a plain one.

Words are taken in from left to right.  A word that cannot be anything stops the reading at once,
but what an option was given is judged only when the next option or plain word begins, or when the
words end: an option that still waits for its value, or is given twice, may stand before a fault
that is found first.
-/

namespace CompletionCheck.CommandLine

/-- Why words give no command. -/
inductive Stop
  /-- The words ask for help, which is no fault. -/
  | help
  /-- The words ask for the version, which is no fault. -/
  | version
  | nothingGiven
  | unknownCommand
  | unknownArgument
  /-- An option or a path without a value. -/
  | missingValue
  | givenTwice
  /-- A value for an option that takes none. -/
  | needlessValue
deriving DecidableEq, Repr

namespace Stop

def name : Stop → String
  | .help => "DisplayHelp"
  | .version => "DisplayVersion"
  | .nothingGiven => "DisplayHelpOnMissingArgumentOrSubcommand"
  | .unknownCommand => "InvalidSubcommand"
  | .unknownArgument => "UnknownArgument"
  | .missingValue => "InvalidValue"
  | .givenTwice => "ArgumentConflict"
  | .needlessValue => "TooManyValues"

def exitCode : Stop → Nat
  | .help => 0
  | .version => 0
  | _ => 2

end Stop

structure Common where
  /-- The directory of the fixtures, when it is not the configured one. -/
  casesDir : Option String := none
  /-- The file with the configuration, when it is not to be searched for. -/
  config : Option String := none
deriving DecidableEq, Repr

inductive Command
  /-- Prints the checks. -/
  | list (common : Common)
  /-- Runs the checks; `server` is a command line of its own. -/
  | run (common : Common) (server filter : Option String)
deriving DecidableEq, Repr

def Command.common : Command → Common
  | .list common => common
  | .run common _ _ => common

/-! ## Words -/

inductive Word
  /-- The word `--`, after which every word is a plain one. -/
  | divider
  /-- A word with two dashes, and what stands behind its `=`. -/
  | long (name : String) (value : Option String)
  /-- A word with one dash, of which only the first letter matters. -/
  | short (letter : Char)
  | plain
deriving DecidableEq, Repr

def Word.ofText (word : String) : Word :=
  match word.toList with
  | ['-', '-'] => .divider
  | '-' :: '-' :: body =>
    match body.span (· ≠ '=') with
    | (name, []) => .long (String.ofList name) none
    | (name, _ :: value) => .long (String.ofList name) (some (String.ofList value))
  | '-' :: letter :: _ => .short letter
  | _ => .plain

/-! ## Arguments of a command -/

inductive Slot
  | casesDir
  | config
  | server
  | filter
deriving DecidableEq, Repr

namespace Slot

/-- The name of the option that fills a slot; the directory is no option. -/
def option? : Slot → Option String
  | .casesDir => none
  | .config => some "config"
  | .server => some "server"
  | .filter => some "filter"

/-- Whether a slot holds a path, which is never empty. -/
def isPath : Slot → Bool
  | .casesDir => true
  | .config => true
  | .server => false
  | .filter => false

def ofList : List Slot := [.casesDir, .config]

def ofRun : List Slot := [.casesDir, .config, .server, .filter]

end Slot

/-- The arguments of a command in the course of reading. -/
structure Reading where
  /-- What was given and judged. -/
  taken : List (Slot × String) := []
  /-- What was given last, with its value if that has come, and not judged yet. -/
  pending : Option (Slot × Option String) := none
  /-- Whether the divider has passed. -/
  divided : Bool := false
deriving DecidableEq, Repr

namespace Reading

def value? (r : Reading) (slot : Slot) : Option String :=
  r.taken.lookup slot

def take (r : Reading) (slot : Slot) (value : String) : Except Stop Reading :=
  if (r.value? slot).isSome then .error .givenTwice
  else if slot.isPath && value.isEmpty then .error .missingValue
  else .ok { r with taken := r.taken ++ [(slot, value)] }

/-- Judges what was given last. -/
def settle (r : Reading) : Except Stop Reading :=
  match r.pending with
  | none => .ok r
  | some (_, none) => .error .missingValue
  | some (slot, some value) => ({ r with pending := none } : Reading).take slot value

/-- Takes a plain word in that is not the value of an option: the directory, once. -/
def place (r : Reading) (word : String) : Except Stop Reading :=
  if (r.value? .casesDir).isSome || (r.pending.map (·.1)) == some .casesDir then
    .error .unknownArgument
  else r.settle.map fun r => { r with pending := some (.casesDir, some word) }

def option (slots : List Slot) (r : Reading) (name : String) (value : Option String) :
    Except Stop Reading :=
  match slots.find? fun slot => slot.option? == some name with
  | some slot =>
    match value with
    | some value => do (← r.settle).take slot value
    | none => r.settle.map fun r => { r with pending := some (slot, none) }
  | none =>
    if name = "help" then
      match value with
      | some _ => .error .needlessValue
      | none => do
        let _ ← r.settle
        .error .help
    else .error .unknownArgument

def step (slots : List Slot) (r : Reading) (word : String) : Except Stop Reading :=
  if r.divided then r.place word
  else
    match Word.ofText word with
    | .divider => .ok { r with divided := true }
    | .long name value => r.option slots name value
    | .short letter => do
      if letter = 'h' then
        let _ ← r.settle
        .error .help
      else .error .unknownArgument
    | .plain =>
      match r.pending with
      | some (slot, none) => .ok { r with pending := some (slot, some word) }
      | _ => r.place word

/-- Reads the arguments of a command with the given slots. -/
def ofWords (slots : List Slot) (words : List String) : Except Stop Reading := do
  (← words.foldlM (step slots) {}).settle

def common (r : Reading) : Common := ⟨r.value? .casesDir, r.value? .config⟩

end Reading

/-! ## Commands -/

def commandNames : List String := ["run", "list", "help"]

/-- What comes of asking for help about something: every word has to name a command of the one
before it, and no command has commands below it. -/
def aboutHelp : List String → Stop
  | [] => .help
  | [word] => if commandNames.contains word then .help else .unknownCommand
  | _ => .unknownCommand

/-- What comes of a word that names no command. -/
def withoutCommand (word : String) (rest : List String) : Stop :=
  match Word.ofText word with
  | .divider =>
    match rest with
    | [] => .nothingGiven
    | next :: _ => if commandNames.contains next then .unknownArgument else .unknownCommand
  | .long name value =>
    if name = "help" then if value.isSome then .needlessValue else .help
    else if name = "version" then if value.isSome then .needlessValue else .version
    else .unknownArgument
  | .short letter =>
    if letter = 'h' then .help
    else if letter = 'V' then .version
    else .unknownArgument
  | .plain => .unknownCommand

def parse : List String → Except Stop Command
  | [] => .error .nothingGiven
  | word :: rest =>
    if word = "list" then (Reading.ofWords Slot.ofList rest).map fun r => .list r.common
    else if word = "run" then
      (Reading.ofWords Slot.ofRun rest).map fun r =>
        .run r.common (r.value? .server) (r.value? .filter)
    else if word = "help" then .error (aboutHelp rest)
    else .error (withoutCommand word rest)

end CompletionCheck.CommandLine
