import CompletionCheck.Path
import CompletionCheck.Text.Utf8

/-!
# Names of documents

A language server knows documents by URIs.  The URI of the workspace is made of the names on the
path of its directory; a name is written byte by byte, and a byte that could be taken for something
else by its code in percent form.  Names that only point elsewhere keep their meaning: a `.` is
dropped with the empty names, while `..` stays.  The URI of a document is that of the workspace,
up to its last slash, followed by the name of the file.
-/

namespace CompletionCheck.Lsp

/-- The visible characters that have a meaning of their own in a URI. -/
def reservedChars : List Char :=
  ['"', '#', '<', '>', '?', '\x60', '\x7b', '\x7d', '%', '\\']

/-- Whether a byte stands for itself in a name. -/
def isPlainByte (b : UInt8) : Bool :=
  0x20 < b && b < 0x7f && reservedChars.all (·.toNat != b.toNat)

def percentByte (b : UInt8) : List Char :=
  if isPlainByte b then [Char.ofNat b.toNat]
  else ['%', (Nat.digitChar (b.toNat / 16)).toUpper, (Nat.digitChar (b.toNat % 16)).toUpper]

def percentName (name : List Char) : List Char :=
  (Text.encode name).flatMap percentByte

def directoryUri (path : String) : String :=
  String.ofList ("file://".toList ++
    (Path.names path).flatMap (fun name => '/' :: percentName name) ++ ['/'])

/-- The URI of the file with a plain name that lies where `base` does. -/
def resolveUri (base fileName : String) : String :=
  String.ofList ((base.toList.reverse.dropWhile (· ≠ '/')).reverse ++ fileName.toList)

/-- The URI of a workspace whose root is given from the working directory `cwd`. -/
def rootUri (cwd root : String) : String :=
  directoryUri (Path.join cwd root)

end CompletionCheck.Lsp
