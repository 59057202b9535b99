import CompletionCheck.Text.Utf8

/-!
# The payload of an expectation comment

What follows the comment marker is a list of tokens with `;` between them.  A token that holds a
`!` forbids a symbol, and its first `!` divides it; any other token is a symbol that is expected.
Every text is a payload, because a token may be empty.

The reader goes through the text once: it takes a run without `;` and `!`, and only then knows
which kind of token it is in.  `tree` lays the tokens out as a tree of spans over the text.
-/

namespace CompletionCheck.Fixture

/-- A token of a payload, with the blanks around it.  One that holds a `!` is cut at the first. -/
inductive Token
  | symbol (text : List Char)
  | forbidden (before after : List Char)
deriving DecidableEq, Repr

namespace Token

def text : Token → List Char
  | .symbol text => text
  | .forbidden before after => before ++ '!' :: after

/-- Reads the token that a text begins with, up to the next `;`. -/
def read (cs : List Char) : Token × List Char :=
  match cs.span fun c => c ≠ ';' && c ≠ '!' with
  | (before, '!' :: rest) =>
    let (after, rest) := rest.span (· ≠ ';')
    (.forbidden before after, rest)
  | (text, rest) => (.symbol text, rest)

end Token

/-- The tokens of a payload in order: at most `limit`, which is never reached when it exceeds the
length of the text. -/
def readTokens : Nat → List Char → List Token
  | 0, _ => []
  | limit + 1, cs =>
    match Token.read cs with
    | (token, []) => [token]
    | (token, _ :: rest) => token :: readTokens limit rest

def tokens (payload : List Char) : List Token :=
  readTokens (payload.length + 1) payload

/-! ## The tree of a payload -/

/-- What a node of the tree stands for. -/
inductive Part
  | payload
  | token
  | forbidden
  | symbol
  | lead
  | endOfInput
deriving DecidableEq, Repr

def Part.name : Part → String
  | .payload => "payload"
  | .token => "token"
  | .forbidden => "forbidden"
  | .symbol => "symbol"
  | .lead => "prefix"
  | .endOfInput => "EOI"

/-- A stretch of the text, from byte `start` to byte `stop`, and the parts inside it. -/
inductive Node
  | mk (part : Part) (start stop : Nat) (children : List Node)
deriving Repr

def Token.node (start : Nat) (t : Token) : Node :=
  let stop := start + Text.byteLength t.text
  match t with
  | .symbol _ => .mk .token start stop [.mk .symbol start stop []]
  | .forbidden before _ =>
    let mark := start + Text.byteLength before
    .mk .token start stop
      [.mk .forbidden start stop [.mk .lead start mark [], .mk .symbol (mark + 1) stop []]]

/-- The nodes of tokens that follow each other from byte `start` on. -/
def tokenNodes (start : Nat) : List Token → List Node
  | [] => []
  | t :: ts => t.node start :: tokenNodes (start + Text.byteLength t.text + 1) ts

def tree (payload : List Char) : Node :=
  let size := Text.byteLength payload
  .mk .payload 0 size (tokenNodes 0 (tokens payload) ++ [.mk .endOfInput size size []])

end CompletionCheck.Fixture
