import CompletionCheck.Json.Basic

/-!
# What a value has to be

A shape says which values will do in some place of a message.  Numbers are the ones without a
fraction, within bounds; a record is an object that has its members, whatever else it holds, or an
array of exactly its members in their order.  A member that may be `null` may also be absent, since
an absent member reads as `null`.  `Shape.fits` decides whether a value has a shape.
-/

namespace CompletionCheck.Json

inductive Shape
  | anything
  | flag
  | text
  /-- A whole number within bounds, both included. -/
  | whole (low high : Int)
  /-- One of some words, or an object whose only member is a word with nothing. -/
  | word (words : List String)
  | nullable (shape : Shape)
  | listOf (shape : Shape)
  | either (one other : Shape)
  /-- Members with a name and a shape each. -/
  | record (members : List (String × Shape))

namespace Shape

def signed32 : Shape := .whole (-0x80000000) 0x7fffffff

def unsigned32 : Shape := .whole 0 0xffffffff

def word? : Json → Option String
  | .str s => some s
  | .obj [(s, .null)] => some s
  | _ => none

mutual

def fits : Shape → Json → Bool
  | .anything, _ => true
  | .flag, .bool _ => true
  | .text, .str _ => true
  | .whole low high, .int n => low ≤ n && n ≤ high
  | .word words, v => (word? v).any words.contains
  | .nullable _, .null => true
  | .nullable shape, v => shape.fits v
  | .listOf shape, .arr items => items.all fun v => shape.fits v
  | .either one other, v => one.fits v || other.fits v
  | .record members, .obj values => fitMembers members values
  | .record members, .arr items => fitItems members items
  | _, _ => false

/-- Whether an object has the members of a record. -/
def fitMembers : List (String × Shape) → List (String × Json) → Bool
  | [], _ => true
  | (name, shape) :: rest, values =>
    shape.fits ((values.lookup name).getD .null) && fitMembers rest values

/-- Whether an array consists of the members of a record. -/
def fitItems : List (String × Shape) → List Json → Bool
  | [], [] => true
  | (_, shape) :: rest, v :: items => shape.fits v && fitItems rest items
  | _, _ => false

end

/-- The value of a member of a record, `null` when it is not there. -/
def memberD (members : List (String × Shape)) (name : String) : Json → Json
  | .arr items => (((members.map (·.1)).zip items).lookup name).getD .null
  | v => Json.memberD name v

end Shape

end CompletionCheck.Json
