/-!
# Failures of streams and files
-/

namespace CompletionCheck

/-- The kinds of failure of a stream or a file. -/
inductive IoKind
  | unexpectedEof
  | invalidData
  | brokenPipe
  | notFound
  | notADirectory
  | isADirectory
  | linkLoop
  | invalidInput
  | nameTooLong
deriving DecidableEq, Repr

namespace IoKind

def name : IoKind → String
  | .unexpectedEof => "UnexpectedEof"
  | .invalidData => "InvalidData"
  | .brokenPipe => "BrokenPipe"
  | .notFound => "NotFound"
  | .notADirectory => "NotADirectory"
  | .isADirectory => "IsADirectory"
  | .linkLoop => "FilesystemLoop"
  | .invalidInput => "InvalidInput"
  | .nameTooLong => "InvalidFilename"

/-- The wording of a failure to read a file or a directory. -/
def text : IoKind → String
  | .unexpectedEof => "unexpected end of file"
  | .invalidData => "stream did not contain valid UTF-8"
  | .brokenPipe => "Broken pipe (os error 32)"
  | .notFound => "No such file or directory (os error 2)"
  | .notADirectory => "Not a directory (os error 20)"
  | .isADirectory => "Is a directory (os error 21)"
  | .linkLoop => "Too many levels of symbolic links (os error 40)"
  | .invalidInput => "file name contained an unexpected NUL byte"
  | .nameTooLong => "File name too long (os error 36)"

end IoKind

end CompletionCheck
