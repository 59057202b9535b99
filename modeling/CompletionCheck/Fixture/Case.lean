import CompletionCheck.Fixture.Cursor
import CompletionCheck.Fixture.Expectations
import CompletionCheck.Fixture.Line

/-!
# The cases of a fixture

Every line with a marker gives one entry: a case to be checked, or the reason why it can be none.
An entry depends on its own line alone, apart from the text of the whole fixture that every case
carries along, so a faulty line never takes another one with it.
-/

namespace CompletionCheck.Fixture

/-- One completion check.  The offsets are bytes of the fixture's text. -/
structure TestCase where
  /-- The path of the fixture. -/
  source : String
  /-- The whole text of the fixture. -/
  text : String
  /-- The line up to its marker. -/
  code : String
  /-- Counted from one. -/
  lineNumber : Nat
  lineStart : Nat
  dialect : Dialect
  cursor : Nat
  expected : List String
  unwanted : SymbolSet
deriving DecidableEq

namespace TestCase

/-- The name under which a case is listed. -/
def name (c : TestCase) : String :=
  "get completions " ++ c.source ++ ":" ++ toString c.cursor

/-- The word to be completed.  Partial words are not modelled, so it is empty and begins at the
cursor. -/
def wordStart (c : TestCase) : Nat := c.cursor

/-- The end of the word to be completed, which is its beginning. -/
def wordEnd (c : TestCase) : Nat := c.cursor

end TestCase

/-- A line whose comment asks for something impossible.  The span covers the line from its marker
to its end. -/
structure LineError where
  source : String
  line : Nat
  spanStart : Nat
  spanLength : Nat
  cause : Conflict
deriving DecidableEq, Repr

/-- The description of a faulty line; the advice is that of its cause. -/
def LineError.diagnosis (e : LineError) : Diagnosis where
  message := e.source ++ ":" ++ toString e.line ++ ": " ++ e.cause.diagnosis.message
  code := "fixture::annotation"
  help := e.cause.diagnosis.help

/-- What a line with a marker gives. -/
abbrev Entry := Except LineError TestCase

/-- The case of a line with its code and what its comment asks. -/
def caseOf (source text : String) (d : Dialect) (line : PlacedLine) (code : List Char)
    (e : Expectations) : TestCase where
  source := source
  text := text
  code := String.ofList code
  lineNumber := line.number
  lineStart := line.start
  dialect := d
  cursor := line.start + (cursor? code).getD 0
  expected := e.expected
  unwanted := e.unwanted

def entryOf? (source text : String) (d : Dialect) (line : PlacedLine) : Option Entry :=
  match Line.scan d line.chars with
  | .plain => none
  | .annotated code payload =>
    match Expectations.parse payload with
    | .ok e => some (.ok (caseOf source text d line code e))
    | .error c =>
      some (.error
        { source := source
          line := line.number
          spanStart := line.start + Text.byteLength code
          spanLength := Text.byteLength line.chars - Text.byteLength code
          cause := c })

/-- The entries of a fixture in the order of its lines. -/
def entries (source text : String) (d : Dialect) : List Entry :=
  (linesOf text.toList).filterMap (entryOf? source text d)

def casesOf (es : List Entry) : List TestCase :=
  es.filterMap fun
    | .ok c => some c
    | .error _ => none

/-- The notice that a case has nothing before its marker. -/
def blankCodeNotice? (c : TestCase) : Option Notice :=
  if c.code.toList.all (· = ' ') then
    some (.warn (c.source ++ ":" ++ toString c.lineNumber ++
      ": no code before the annotation marker; cursor placed at line start"))
  else none

def notices (es : List Entry) : List Notice :=
  (casesOf es).filterMap blankCodeNotice?

end CompletionCheck.Fixture
