import CompletionCheck.Json.Printer
import CompletionCheck.Text.Utf8

/-!
# Frames

Messages follow each other on a byte stream, each in a frame: a header that says how many bytes
the body has, an empty line, and the body, which is the message as compact JSON in UTF-8.
-/

namespace CompletionCheck.Lsp

def body (message : Json) : List UInt8 :=
  Text.encode message.write

/-- The header of a body with this many bytes, with the empty line after it. -/
def frameHeader (length : Nat) : List Char :=
  "Content-Length: ".toList ++ (toString length).toList ++ ['\r', '\n', '\r', '\n']

def frame (message : Json) : List UInt8 :=
  Text.encode (frameHeader (body message).length) ++ body message

def frames (messages : List Json) : List UInt8 :=
  messages.flatMap frame

end CompletionCheck.Lsp
