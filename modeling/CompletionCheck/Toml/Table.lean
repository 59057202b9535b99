import CompletionCheck.Toml.Value

/-!
# Tables while a document is read

A table can be begun in three ways, and the way decides how it may go on.  A table with a header of
its own, and an inline table, is complete in one place.  A table that only stands on the way to
the header of another may still get a header.  A table that stands on the way of a dotted key may
get further dotted keys and nothing else.  A key that is defined twice, or a path that leads
through something that is no table, makes the document invalid, and then nothing of it counts.
-/

namespace CompletionCheck.Toml

/-- How a table was begun, which decides what may still be added to it. -/
inductive Origin
  /-- By a header of its own. -/
  | headed
  /-- On the way to another header. -/
  | passed
  /-- On the way of a dotted key. -/
  | dotted
deriving DecidableEq, Repr

mutual

inductive Item
  | value (v : Value)
  | table (t : Table)
  /-- The tables of headers in double brackets. -/
  | tables (ts : List Table)

/-- A table, its entries in the order in which they were made. -/
inductive Table
  | mk (origin : Origin) (entries : List (String × Item))

end

namespace Table

def origin : Table → Origin
  | mk origin _ => origin

def entries : Table → List (String × Item)
  | mk _ entries => entries

def empty (origin : Origin) : Table := mk origin []

def withHeader (t : Table) : Table := mk .headed t.entries

def find? (t : Table) (key : String) : Option Item :=
  t.entries.lookup key

/-- Puts something under a key: in its place if the key is there, at the end if it is not. -/
def set (t : Table) (key : String) (item : Item) : Table :=
  if (t.find? key).isSome then
    mk t.origin (t.entries.map fun e => if e.1 = key then (key, item) else e)
  else mk t.origin (t.entries ++ [(key, item)])

def erase (t : Table) (key : String) : Table :=
  mk t.origin (t.entries.filter fun e => e.1 ≠ key)

/-- Changes the table to which keys lead, making the tables on the way that are not there.  Dotted
keys may not pass through a table with a header. -/
def within {α : Type} (dotted : Bool) (change : Table → Option (α × Table)) :
    List String → Table → Option (α × Table)
  | [], t => change t
  | key :: rest, t =>
    match t.find? key with
    | none =>
      let fresh := empty (if dotted then .dotted else .passed)
      (within dotted change rest fresh).map fun (a, inner) => (a, t.set key (.table inner))
    | some (.value _) => none
    | some (.table inner) =>
      if dotted && inner.origin = .headed then none
      else (within dotted change rest inner).map fun (a, inner) => (a, t.set key (.table inner))
    | some (.tables ts) =>
      match ts.getLast? with
      | none => none
      | some inner =>
        (within dotted change rest inner).map fun (a, inner) =>
          (a, t.set key (.tables (ts.dropLast ++ [inner])))

/-- Puts a value under a key that is not there. -/
def addNew (key : String) (item : Item) (t : Table) : Option (Unit × Table) :=
  if (t.find? key).isSome then none else some ((), t.set key item)

/-- Defines a dotted key; `last` is its last part. -/
def define (t : Table) (path : List String) (last : String) (v : Value) : Option Table :=
  let change (inner : Table) : Option (Unit × Table) :=
    if !path.isEmpty && inner.origin ≠ .dotted then none else addNew last (.value v) inner
  (t.within true change path).map (·.2)

def defineAll (t : Table) : List (List String × Value) → Option Table
  | [] => some t
  | (keys, v) :: rest =>
    match keys.getLast? with
    | none => none
    | some last => (t.define keys.dropLast last v).bind fun t => t.defineAll rest

end Table

mutual

def Item.toValue : Item → Value
  | .value v => v
  | .table t => t.toValue
  | .tables ts => .array (tablesToValues ts)

def Table.toValue : Table → Value
  | .mk _ entries => .table (entriesToValues entries)

def tablesToValues : List Table → List Value
  | [] => []
  | t :: rest => t.toValue :: tablesToValues rest

def entriesToValues : List (String × Item) → List (String × Value)
  | [] => []
  | (key, item) :: rest => (key, item.toValue) :: entriesToValues rest

end

def inlineTable? (pairs : List (List String × Value)) : Option Value :=
  ((Table.empty .headed).defineAll pairs).map Table.toValue

end CompletionCheck.Toml
