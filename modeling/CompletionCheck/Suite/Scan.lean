import CompletionCheck.Dialect
import CompletionCheck.Files.Tree
import CompletionCheck.Notice
import CompletionCheck.Text.Find
import CompletionCheck.Text.Quoted

/-!
# Finding fixtures

The fixtures of a suite are the files directly inside its directory, in the order of their names.
Names that begin with a dot are hidden, and names that are no texts are passed over with a notice.
Of the others, the name decides what becomes of a file (`Fate`): one that holds `TODO` is parked,
one without a dialect's extension is skipped, and the first of the rest that holds `ONLY` is the
only one to be run.  Files after that one are not even looked at (`visited`), so the order in which
the directory lists its files makes no difference.
-/

namespace CompletionCheck.Suite

inductive SkipReason
  | todo
  | unsupportedExtension
deriving DecidableEq, Repr

def SkipReason.name : SkipReason → String
  | .todo => "Todo"
  | .unsupportedExtension => "UnsupportedExtension"

structure FixtureFile where
  path : String
  dialect : Dialect
deriving DecidableEq, Repr

structure Skipped where
  path : String
  reason : SkipReason
deriving DecidableEq, Repr

structure Scan where
  fixtures : List FixtureFile := []
  skipped : List Skipped := []
  /-- Whether one fixture keeps all others from being run. -/
  isolated : Bool := false
deriving DecidableEq, Repr

/-- What becomes of a file because of its name. -/
inductive Fate
  | skipped (why : SkipReason)
  | ordinary (d : Dialect)
  /-- Run, and nothing else. -/
  | alone (d : Dialect)
deriving DecidableEq, Repr

def fate (name : String) : Fate :=
  if Text.occursIn "TODO".toList name.toList then .skipped .todo
  else
    match Dialect.ofPath? name with
    | none => .skipped .unsupportedExtension
    | some d => if Text.occursIn "ONLY".toList name.toList then .alone d else .ordinary d

/-- The names up to the first that is run alone, with that one. -/
def visited : List String → List String
  | [] => []
  | name :: rest =>
    match fate name with
    | .alone _ => [name]
    | _ => name :: visited rest

/-- The fixture that is run alone, if there is one. -/
def aloneIn? (dir : String) (names : List String) : Option FixtureFile :=
  names.findSome? fun name =>
    match fate name with
    | .alone d => some ⟨Path.join dir name, d⟩
    | _ => none

/-- The fixture that a name gives when none is run alone. -/
def ordinaryFile? (dir name : String) : Option FixtureFile :=
  match fate name with
  | .ordinary d => some ⟨Path.join dir name, d⟩
  | _ => none

def skippedFile? (dir name : String) : Option Skipped :=
  match fate name with
  | .skipped why => some ⟨Path.join dir name, why⟩
  | _ => none

/-- What names in their order hold for a suite. -/
def Scan.ofNames (dir : String) (names : List String) : Scan :=
  let skipped := (visited names).filterMap (skippedFile? dir)
  match aloneIn? dir names with
  | some file => { fixtures := [file], skipped, isolated := true }
  | none => { fixtures := names.filterMap (ordinaryFile? dir), skipped, isolated := false }

/-- The notice that a visited name gives rise to. -/
def fateNotice? (dir name : String) : Option Notice :=
  let path := Path.join dir name
  match fate name with
  | .skipped .todo => some (.info ("skipping " ++ path ++ ": marked TODO"))
  | .skipped .unsupportedExtension =>
    some (.warn ("skipping " ++ path ++ ": unsupported file extension"))
  | .alone _ => some (.info (path ++ " is marked ONLY; ignoring every other fixture"))
  | .ordinary _ => none

/-- The names of a directory that count: those of files, as texts, not hidden, in order. -/
def candidateNames (entries : List (Files.FileName × Files.Node)) : List String :=
  let files := entries.filter fun e => e.2 ≠ .directory
  let texts := files.filterMap fun e => (Text.decode? e.1).map String.ofList
  (texts.filter fun name => name.toList.head? != some '.').mergeSort fun a b => decide (a ≤ b)

def unreadableNames (entries : List (Files.FileName × Files.Node)) : List Notice :=
  entries.filterMap fun e =>
    if e.2 ≠ .directory && (Text.decode? e.1).isNone then
      some (.warn ("skipping non UTF-8 file name: " ++ String.ofList (Text.quotedName e.1)))
    else none

structure ScanError where
  path : String
  why : IoKind
deriving DecidableEq, Repr

def ScanError.diagnosis (e : ScanError) : Diagnosis where
  message := "failed to read cases directory " ++ e.path ++ ": " ++ e.why.text
  code := "harness::scan::read_dir"

/-- Scans a directory; gives what it holds and the notices about its files. -/
def Scan.ofDirectory (t : Files.Tree) (dir : String) : Except ScanError (Scan × List Notice) :=
  match t.list dir with
  | .error why => .error ⟨dir, why⟩
  | .ok entries =>
    let names := candidateNames entries
    .ok (.ofNames dir names, unreadableNames entries ++ (visited names).filterMap (fateNotice? dir))

end CompletionCheck.Suite
