/-!
# What a run tells besides its results

Two kinds of side messages.  A *notice* is noted while work goes on and changes nothing: a file
that is passed over, a line without code, a server that stays silent.  A *diagnosis* describes a
fault to the reader: a message, a code that names the kind of fault, and sometimes advice.
-/

namespace CompletionCheck

inductive Level
  | info
  | warn
deriving DecidableEq, Repr

def Level.name : Level → String
  | .info => "INFO"
  | .warn => "WARN"

structure Notice where
  level : Level
  text : String
deriving DecidableEq, Repr

namespace Notice

def info (text : String) : Notice := ⟨.info, text⟩

def warn (text : String) : Notice := ⟨.warn, text⟩

def render (n : Notice) : String :=
  n.level.name ++ ": " ++ n.text

end Notice

structure Diagnosis where
  message : String
  code : String
  help : Option String := none
deriving DecidableEq, Repr

end CompletionCheck
