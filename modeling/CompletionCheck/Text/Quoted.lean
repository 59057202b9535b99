import CompletionCheck.Text.Printable
import CompletionCheck.Text.Utf8

/-!
# Quoted texts

Messages quote what they cite: between double quotes, a backslash before a double quote or a
backslash, the usual letters for the control characters that have one, and the code point of any
other character that has no visible form or would join the character before it.  File names are
quoted in the same way; a byte of a name that belongs to no character is written as such.
-/

namespace CompletionCheck.Text

/-- A code point between braces, in lower-case hexadecimal digits. -/
def codePointEscape (c : Char) : List Char :=
  ['\\', 'u', '\x7b'] ++ Nat.toDigits 16 c.toNat ++ ['\x7d']

def escapeChar (c : Char) : List Char :=
  if c = '\x00' then ['\\', '0']
  else if c = '\t' then ['\\', 't']
  else if c = '\n' then ['\\', 'n']
  else if c = '\r' then ['\\', 'r']
  else if c = '"' || c = '\\' then ['\\', c]
  else if extendsGrapheme c || !isPrintable c then codePointEscape c
  else [c]

def quoted (cs : List Char) : List Char :=
  ['"'] ++ cs.flatMap escapeChar ++ ['"']

/-- A byte outside any character, as two upper-case hexadecimal digits. -/
def byteEscape (b : UInt8) : List Char :=
  let digits := (Nat.toDigits 16 b.toNat).map Char.toUpper
  ['\\', 'x'] ++ List.replicate (2 - digits.length) '0' ++ digits

/-- A quoted file name, given by its bytes. -/
def quotedName (bytes : List UInt8) : List Char :=
  ['"'] ++ (pieces bytes).flatMap (fun
    | .char c => escapeChar c
    | .byte b => byteEscape b) ++ ['"']

end CompletionCheck.Text
