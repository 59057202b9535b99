/-!
# JSON values

A value as it travels between the checker and a language server.  Whole numbers and numbers with
a fraction or an exponent are kept apart, because they compare and print apart: `1` is not `1.0`.
The members of an object stand in increasing order of their keys and no key stands twice;
`insertMember` keeps it so, and a later member with the same key replaces the earlier one.
-/

namespace CompletionCheck

inductive Json
  | null
  | bool (b : Bool)
  | int (n : Int)
  | float (x : Float)
  | str (s : String)
  | arr (items : List Json)
  | obj (members : List (String × Json))
deriving Inhabited

namespace Json

/-- Adds a member, in the place of one with the same key if there is one. -/
def insertMember (key : String) (value : Json) : List (String × Json) → List (String × Json)
  | [] => [(key, value)]
  | (k, v) :: rest =>
    if key < k then (key, value) :: (k, v) :: rest
    else if key = k then (key, value) :: rest
    else (k, v) :: insertMember key value rest

/-- The object with these members, the last of several with one key. -/
def ofMembers (members : List (String × Json)) : Json :=
  .obj (members.foldl (fun sorted m => insertMember m.1 m.2 sorted) [])

/-- A text, or `null` when there is none. -/
def ofText? : Option String → Json
  | some s => .str s
  | none => .null

/-- The value of a member of an object; other values have no members. -/
def member? (key : String) : Json → Option Json
  | .obj members => members.lookup key
  | _ => none

/-- The value of a member of an object, `null` when it is not there. -/
def memberD (key : String) (v : Json) : Json :=
  (v.member? key).getD .null

def text? : Json → Option String
  | .str s => some s
  | _ => none

/-- The whole number that a value is, if it lies in the signed range of 64 bits. -/
def signed64? : Json → Option Int
  | .int n => if -0x8000000000000000 ≤ n ∧ n < 0x8000000000000000 then some n else none
  | _ => none

mutual

/-- Equality of values: numbers of different kinds differ, floats compare as numbers. -/
protected def beq : Json → Json → Bool
  | .null, .null => true
  | .bool a, .bool b => a == b
  | .int m, .int n => m == n
  | .float x, .float y => x == y
  | .str s, .str t => s == t
  | .arr xs, .arr ys => beqItems xs ys
  | .obj xs, .obj ys => beqMembers xs ys
  | _, _ => false

def beqItems : List Json → List Json → Bool
  | [], [] => true
  | x :: xs, y :: ys => Json.beq x y && beqItems xs ys
  | _, _ => false

def beqMembers : List (String × Json) → List (String × Json) → Bool
  | [], [] => true
  | (k, x) :: xs, (l, y) :: ys => k == l && Json.beq x y && beqMembers xs ys
  | _, _ => false

end

instance : BEq Json := ⟨Json.beq⟩

end Json

end CompletionCheck
