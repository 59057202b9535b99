import CompletionCheck.Fixture.Payload
import CompletionCheck.Fixture.SymbolSet
import CompletionCheck.Notice
import CompletionCheck.Text.Blank

/-!
# What a comment asks of a completion list

The tokens of a payload are collected into the symbols that must appear, in the order of the
comment and with repetitions, and the set of those that must not.  Blanks around a symbol do not
belong to it, and an empty symbol asks for nothing.  A comment that both expects and forbids a
symbol can never be met and is refused with the first such symbol.
-/

namespace CompletionCheck.Fixture

/-- What a comment asks of a completion list. -/
structure Expectations where
  expected : List String := []
  unwanted : SymbolSet := .empty
deriving DecidableEq

/-- A symbol that a comment both expects and forbids. -/
structure Conflict where
  symbol : String
deriving DecidableEq, Repr

def Conflict.diagnosis (c : Conflict) : Diagnosis where
  message := "symbol `" ++ c.symbol ++ "` is both expected and forbidden"
  code := "fixture::annotation::conflict"
  help := some ("drop either `" ++ c.symbol ++ "` or `!" ++ c.symbol ++ "` from the annotation")

namespace Expectations

def isEmpty (e : Expectations) : Bool :=
  e.expected.isEmpty && e.unwanted.isEmpty

/-- Takes an expected symbol in; an empty one asks for nothing. -/
def expect (e : Expectations) (symbol : List Char) : Expectations :=
  if symbol.isEmpty then e else { e with expected := e.expected ++ [String.ofList symbol] }

/-- Takes a forbidden symbol in; an empty one asks for nothing. -/
def forbid (e : Expectations) (symbol : List Char) : Expectations :=
  if symbol.isEmpty then e else { e with unwanted := e.unwanted.insert (String.ofList symbol) }

/-- Takes one token in.  A forbidden symbol is its token without the first `!`. -/
def add (e : Expectations) : Token → Expectations
  | .symbol text => e.expect (Text.trim text)
  | .forbidden before after => e.forbid (Text.trim (before ++ after))

/-- What tokens ask, conflicting or not. -/
def ofTokens (ts : List Token) : Expectations :=
  ts.foldl add ⟨[], .empty⟩

/-- The first expected symbol that is also forbidden. -/
def conflict? (e : Expectations) : Option Conflict :=
  (e.expected.find? (· ∈ e.unwanted)).map Conflict.mk

/-- What was collected, unless there is a conflict in it. -/
def checked (e : Expectations) : Except Conflict Expectations :=
  match e.conflict? with
  | some c => .error c
  | none => .ok e

def parse (payload : List Char) : Except Conflict Expectations :=
  (ofTokens (tokens payload)).checked

end Expectations

end CompletionCheck.Fixture
