import CompletionCheck.Json.Parser
import CompletionCheck.Service.Error
import CompletionCheck.Text.Blank
import CompletionCheck.Text.Find
import CompletionCheck.Text.Utf8

/-!
# Reading frames

The reader takes a stream one byte at a time and gives the messages of its frames, so it does not
matter in which pieces the stream arrives.  A line ends at a line feed; carriage returns before it
are dropped.  Blank lines between frames are passed over.  A header block is one or more lines
with a colon, of which the last `Content-Length` counts, and ends at a blank line; the body is
exactly as many bytes as it says.

At the first line or body that breaks these rules the reader stops for good, with the reason.  A
length beyond the address space stops it too: no such body can be held (`maxLength`).
-/

namespace CompletionCheck.Lsp

inductive Stop
  /-- The stream ended between two frames. -/
  | ended
  | failed (e : ServiceError)
  /-- A body was announced that no memory can hold. -/
  | tooLong
deriving DecidableEq, Repr

/-- Where a reader is.  Collected bytes stand in reverse order. -/
inductive Reader
  /-- In a line of a header block, or in a blank line before it: the line so far, whether the
  block has a line already, and the length it has given. -/
  | header (line : List UInt8) (seen : Bool) (length : Option Nat)
  /-- In a body of which `left + 1` bytes are missing. -/
  | body (left : Nat) (collected : List UInt8)
  | stopped (why : Stop)
deriving DecidableEq, Repr

namespace Reader

/-- A reader at the beginning of a stream or between two frames. -/
def start : Reader := .header [] false none

/-- The largest length of a body that an address space of 64 bits admits. -/
def maxLength : Nat := 0x7fffffffffffffff

/-- The number that decimal digits spell, a plus sign before them allowed, if it fits 64 bits. -/
def lengthValue? (cs : List Char) : Option Nat :=
  let digits :=
    match cs with
    | c :: rest => if c = '+' then rest else cs
    | [] => []
  if digits.isEmpty || !digits.all Char.isDigit then none
  else
    let value := digits.foldl (fun n c => n * 10 + (c.toNat - '0'.toNat)) 0
    if value < 0x10000000000000000 then some value else none

inductive HeaderLine
  /-- No text. -/
  | undecodable
  | blank
  | malformed (text : List Char)
  | badLength (value : List Char)
  | length (n : Nat)
  /-- Some other header. -/
  | other
deriving DecidableEq, Repr

/-- A text in lower case, of the ASCII letters alone. -/
def lowerAscii (cs : List Char) : List Char :=
  cs.map Char.toLower

/-- Reads a line of a header block without its line feed. -/
def HeaderLine.ofBytes (bytes : List UInt8) : HeaderLine :=
  match Text.decode? bytes with
  | none => .undecodable
  | some text =>
    let text := (text.reverse.dropWhile fun c => c = '\r' || c = '\n').reverse
    if text.isEmpty then .blank
    else
      match Text.cutAt? [':'] text with
      | none => .malformed text
      | some (name, value) =>
        if lowerAscii (Text.trim name) = "content-length".toList then
          match lengthValue? (Text.trim value) with
          | some n => .length n
          | none => .badLength (Text.trim value)
        else .other

/-- A reader that has stopped because of a fault of the other side. -/
def fault (f : ProtocolFault) : Reader :=
  .stopped (.failed (.protocol f))

/-- The reader after a complete body, and the message that the body was. -/
def endBody (bytes : List UInt8) : Reader × Option Json :=
  match (Text.decode? bytes).bind Json.parse? with
  | some message => (start, some message)
  | none => (fault .invalidBody, none)

/-- The reader after a complete header block. -/
def endHeader : Option Nat → Reader × Option Json
  | none => (fault .missingLength, none)
  | some 0 => endBody []
  | some (n + 1) => if maxLength < n + 1 then (.stopped .tooLong, none) else (.body n [], none)

def endLine (line : List UInt8) (seen : Bool) (length : Option Nat) : Reader × Option Json :=
  match HeaderLine.ofBytes line with
  | .undecodable => (.stopped (.failed (.io .invalidData)), none)
  | .blank => if seen then endHeader length else (start, none)
  | .malformed text => (fault (.malformedHeader (String.ofList text)), none)
  | .badLength value => (fault (.badLength (String.ofList value)), none)
  | .length n => (.header [] true (some n), none)
  | .other => (.header [] true length, none)

/-- Takes one byte, and gives the message that it completes, if it completes one. -/
def step : Reader → UInt8 → Reader × Option Json
  | .header line seen length, b =>
    if b = 10 then endLine line.reverse seen length else (.header (b :: line) seen length, none)
  | .body 0 collected, b => endBody (b :: collected).reverse
  | .body (left + 1) collected, b => (.body left (b :: collected), none)
  | .stopped why, _ => (.stopped why, none)

/-- Takes bytes and puts the messages they complete before `acc`, the last one first. -/
def feedOnto (acc : List Json) : Reader → List UInt8 → Reader × List Json
  | r, [] => (r, acc)
  | r, b :: bytes =>
    match r.step b with
    | (r, some message) => feedOnto (message :: acc) r bytes
    | (r, none) => feedOnto acc r bytes

def feed (r : Reader) (bytes : List UInt8) : Reader × List Json :=
  let (r, messages) := feedOnto [] r bytes
  (r, messages.reverse)

/-- Why a reader that is not at an unfinished line stops when the stream ends. -/
def stopAtEnd : Reader → Stop
  | .header _ true _ => .failed (.protocol .endInsideHeader)
  | .header _ false _ => .ended
  | .body .. => .failed (.io .unexpectedEof)
  | .stopped why => why

/-- Why a reader stops when the stream ends.  An unfinished line counts as a line. -/
def finish : Reader → Stop
  | .header (b :: line) seen length => (endLine (b :: line).reverse seen length).1.stopAtEnd
  | r => r.stopAtEnd

/-- The messages of a whole stream and why reading it stops. -/
def readAll (bytes : List UInt8) : List Json × Stop :=
  let (r, messages) := start.feed bytes
  (messages, r.finish)

end Reader

end CompletionCheck.Lsp
