import CompletionCheck.Json.Basic

/-!
# Values of a TOML document

What a document says, without the ways of saying it: inline tables, headers and dotted keys all
give tables.  The entries of a table stand in the order in which the document defines them, and no
key stands twice.  Seen as JSON, a date or time is an object whose single member names it as such,
and a number that JSON cannot write is `null`.
-/

namespace CompletionCheck.Toml

inductive Value
  | string (s : String)
  | integer (n : Int)
  | float (x : Float)
  | boolean (b : Bool)
  /-- A date, a time, or both, in its normal form. -/
  | moment (text : String)
  | array (items : List Value)
  | table (entries : List (String × Value))
deriving Inhabited

namespace Value

/-- The key that marks a date or time in JSON. -/
def momentKey : String := "$__toml_private_datetime"

mutual

def toJson : Value → Json
  | .string s => .str s
  | .integer n => .int n
  | .float x => if x.isNaN || x.isInf then .null else .float x
  | .boolean b => .bool b
  | .moment text => .obj [(momentKey, .str text)]
  | .array items => .arr (itemsToJson items)
  | .table entries => .ofMembers (entriesToJson entries)

def itemsToJson : List Value → List Json
  | [] => []
  | v :: rest => toJson v :: itemsToJson rest

def entriesToJson : List (String × Value) → List (String × Json)
  | [] => []
  | (key, v) :: rest => (key, toJson v) :: entriesToJson rest

end

end Value

end CompletionCheck.Toml
