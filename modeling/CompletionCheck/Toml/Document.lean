import CompletionCheck.Toml.Parser

/-!
# TOML documents

The statements of a document are carried out in their order.  The definitions after a header go
into the table of that header, which joins the document when the next header begins or the document
ends.  The value of a document is its outermost table.
-/

namespace CompletionCheck.Toml

/-- A document in the course of its statements: what has joined it, and the table at hand with the
keys of its header. -/
structure Draft where
  root : Table := .empty .headed
  current : Table := .empty .headed
  path : List String := []
  /-- Whether the header stood in double brackets. -/
  inArray : Bool := false

namespace Draft

/-- Puts a table among those of its header. -/
def push (last : String) (t : Table) (parent : Table) : Option (Unit × Table) :=
  match parent.find? last with
  | none => some ((), parent.set last (.tables [t]))
  | some (.tables ts) => some ((), parent.set last (.tables (ts ++ [t])))
  | some _ => none

/-- Lets the table at hand join the document. -/
def join (d : Draft) : Option Table :=
  match d.path.getLast? with
  | none => some d.current
  | some last =>
    let change := if d.inArray then push last d.current else Table.addNew last (.table d.current)
    (d.root.within false change d.path.dropLast).map (·.2)

/-- Takes the table out that a header may go on with: one that other headers have passed. -/
def takePassed (last : String) (parent : Table) : Option (Table × Table) :=
  match parent.find? last with
  | none => some (.empty .headed, parent)
  | some (.table t) =>
    if t.origin = .passed then some (t.withHeader, parent.erase last) else none
  | some _ => none

/-- Makes sure that double brackets may stand around a key. -/
def openArray (last : String) (parent : Table) : Option (Unit × Table) :=
  match parent.find? last with
  | none => some ((), parent.set last (.tables []))
  | some (.tables _) => some ((), parent)
  | some _ => none

def step (d : Draft) : Statement → Option Draft
  | .define keys v =>
    match keys.getLast? with
    | none => none
    | some last => (d.current.define keys.dropLast last v).map fun t => { d with current := t }
  | .header keys => do
    let root ← d.join
    let last ← keys.getLast?
    let (t, root) ← root.within false (takePassed last) keys.dropLast
    some { root, current := t, path := keys, inArray := false }
  | .arrayHeader keys => do
    let root ← d.join
    let last ← keys.getLast?
    let ((), root) ← root.within false (openArray last) keys.dropLast
    some { root, current := .empty .headed, path := keys, inArray := true }

end Draft

def parse? (cs : List Char) : Option Value := do
  let statements ← readStatements cs
  let draft ← statements.foldlM Draft.step {}
  let root ← draft.join
  some root.toValue

end CompletionCheck.Toml
