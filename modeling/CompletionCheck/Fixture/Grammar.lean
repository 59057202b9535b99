import CompletionCheck.Fixture.Expectations

/-!
# The grammar of payloads

The payload of an expectation comment as a parsing expression grammar, with one rule for each part
of the tree:

    payload   = start token (";" token)* end
    token     = forbidden / symbol
    forbidden = lead "!" symbol
    lead      = (!(";" / "!") any)*
    symbol    = (!";" any)*

`Derives` says what a pattern makes of a place in a text.  Choice is ordered, repetition takes as
much as it can, a look ahead takes nothing, and what a part has matched becomes its node.  The
grammar has no blanks of its own: they belong to the symbols, and `collect`, which walks a tree and
gathers what it asks, trims them off the text that the spans cut out.
-/

namespace CompletionCheck.Fixture

/-! ## Patterns -/

/-- A parsing expression. -/
inductive Pattern
  | char (c : Char)
  | any
  | textStart
  | textEnd
  /-- Takes nothing, and fits where the other pattern does not. -/
  | unless (p : Pattern)
  | seq (p q : Pattern)
  /-- The second pattern counts only where the first does not fit. -/
  | either (p q : Pattern)
  | many (p : Pattern)
  | part (r : Part)

def Part.pattern : Part → Pattern
  | .payload =>
    .seq .textStart
      (.seq (.part .token) (.seq (.many (.seq (.char ';') (.part .token))) (.part .endOfInput)))
  | .token => .either (.part .forbidden) (.part .symbol)
  | .forbidden => .seq (.part .lead) (.seq (.char '!') (.part .symbol))
  | .lead => .many (.seq (.unless (.either (.char ';') (.char '!'))) .any)
  | .symbol => .many (.seq (.unless (.char ';')) .any)
  | .endOfInput => .textEnd

/-- What a pattern makes of a place: the nodes, the byte at which it leaves off and the text from
there on; none where it does not fit. -/
abbrev Match := Option (List Node × Nat × List Char)

/-- `Derives p n cs m`: at byte `n`, where `cs` follows, the pattern `p` gives `m`. -/
inductive Derives : Pattern → Nat → List Char → Match → Prop
  | char (c : Char) (n : Nat) (cs : List Char) :
      Derives (.char c) n (c :: cs) (some ([], n + c.utf8Size, cs))
  | notChar {c : Char} {n : Nat} {cs : List Char} : cs.head? ≠ some c → Derives (.char c) n cs none
  | any (c : Char) (n : Nat) (cs : List Char) :
      Derives .any n (c :: cs) (some ([], n + c.utf8Size, cs))
  | notAny (n : Nat) : Derives .any n [] none
  | textStart (cs : List Char) : Derives .textStart 0 cs (some ([], 0, cs))
  | notTextStart {n : Nat} {cs : List Char} : n ≠ 0 → Derives .textStart n cs none
  | textEnd (n : Nat) : Derives .textEnd n [] (some ([], n, []))
  | notTextEnd (n : Nat) (c : Char) (cs : List Char) : Derives .textEnd n (c :: cs) none
  | unless {p : Pattern} {n : Nat} {cs : List Char} :
      Derives p n cs none → Derives (.unless p) n cs (some ([], n, cs))
  | notUnless {p : Pattern} {n : Nat} {cs : List Char} {m : List Node × Nat × List Char} :
      Derives p n cs (some m) → Derives (.unless p) n cs none
  | seq {p q : Pattern} {n m k : Nat} {cs ds es : List Char} {xs ys : List Node} :
      Derives p n cs (some (xs, m, ds)) → Derives q m ds (some (ys, k, es)) →
      Derives (.seq p q) n cs (some (xs ++ ys, k, es))
  | notFirst {p q : Pattern} {n : Nat} {cs : List Char} :
      Derives p n cs none → Derives (.seq p q) n cs none
  | notSecond {p q : Pattern} {n m : Nat} {cs ds : List Char} {xs : List Node} :
      Derives p n cs (some (xs, m, ds)) → Derives q m ds none → Derives (.seq p q) n cs none
  | first {p q : Pattern} {n : Nat} {cs : List Char} {m : List Node × Nat × List Char} :
      Derives p n cs (some m) → Derives (.either p q) n cs (some m)
  | second {p q : Pattern} {n : Nat} {cs : List Char} {m : Match} :
      Derives p n cs none → Derives q n cs m → Derives (.either p q) n cs m
  | stop {p : Pattern} {n : Nat} {cs : List Char} :
      Derives p n cs none → Derives (.many p) n cs (some ([], n, cs))
  | more {p : Pattern} {n m k : Nat} {cs ds es : List Char} {xs ys : List Node} :
      Derives p n cs (some (xs, m, ds)) → Derives (.many p) m ds (some (ys, k, es)) →
      Derives (.many p) n cs (some (xs ++ ys, k, es))
  | part {r : Part} {n m : Nat} {cs ds : List Char} {xs : List Node} :
      Derives r.pattern n cs (some (xs, m, ds)) →
      Derives (.part r) n cs (some ([.mk r n m xs], m, ds))
  | notPart {r : Part} {n : Nat} {cs : List Char} :
      Derives r.pattern n cs none → Derives (.part r) n cs none

/-! ## Gathering what a tree asks -/

def spanText? (text : List Char) (start stop : Nat) : Option (List Char) :=
  Text.decode? (((Text.encode text).drop start).take (stop - start))

def nodesText? (text : List Char) : List Node → Option (List Char)
  | [] => some []
  | .mk _ start stop _ :: rest => do
    let first ← spanText? text start stop
    let others ← nodesText? text rest
    some (first ++ others)

mutual

/-- Takes in what a node asks.  A lead outside a forbidden symbol is nothing that a tree of the
grammar has, and gives none. -/
def collect (text : List Char) (e : Expectations) : Node → Option Expectations
  | .mk .payload _ _ children => collectAll text e children
  | .mk .token _ _ children => collectAll text e children
  | .mk .forbidden _ _ children => do
    let symbol ← nodesText? text children
    some (e.forbid (Text.trim symbol))
  | .mk .symbol start stop _ => do
    let symbol ← spanText? text start stop
    some (e.expect (Text.trim symbol))
  | .mk .endOfInput _ _ _ => some e
  | .mk .lead _ _ _ => none

def collectAll (text : List Char) (e : Expectations) : List Node → Option Expectations
  | [] => some e
  | node :: rest => do
    let e ← collect text e node
    collectAll text e rest

end

/-- What a tree of a payload asks, or the conflict in it. -/
def Expectations.ofTree? (text : List Char) (root : Node) :
    Option (Except Conflict Expectations) :=
  (collect text {} root).map checked

end CompletionCheck.Fixture
