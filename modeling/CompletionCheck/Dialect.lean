import CompletionCheck.Path

/-!
# Dialects

The two languages a fixture can be written in.  The dialect decides the comment marker that begins
an expectation, the name under which a completion service sees the file, and which name of a
candidate is compared: in the alternate dialect it is the dialect's own name where there is one.
-/

namespace CompletionCheck

inductive Dialect
  | typeScript
  | python
deriving DecidableEq, Repr, Inhabited

namespace Dialect

def name : Dialect → String
  | .typeScript => "TypeScript"
  | .python => "Python"

def extension : Dialect → String
  | .typeScript => "ts"
  | .python => "py"

def ofExtension? (ext : String) : Option Dialect :=
  if ext = "ts" then some .typeScript
  else if ext = "py" then some .python
  else none

/-- The dialect that a file's name tells. -/
def ofPath? (path : String) : Option Dialect :=
  (Path.extension? path).bind ofExtension?

def marker : Dialect → String
  | .typeScript => "//"
  | .python => "#"

/-- The name under which a completion service sees every fixture of the dialect. -/
def fileName : Dialect → String
  | .typeScript => "main.ts"
  | .python => "main.py"

/-- Whether candidates are compared by the name they have in this dialect. -/
def isAlternate : Dialect → Bool
  | .typeScript => false
  | .python => true

def languageId : Dialect → String
  | .typeScript => "typescript"
  | .python => "python"

theorem ofExtension?_extension (d : Dialect) : ofExtension? d.extension = some d := by
  cases d <;> decide

theorem ofExtension?_eq_some_iff {ext : String} {d : Dialect} :
    ofExtension? ext = some d ↔ d.extension = ext := by
  constructor
  · intro h
    unfold ofExtension? at h
    split at h
    · next hts =>
        cases h
        exact hts.symm
    · split at h
      · next hpy =>
          cases h
          exact hpy.symm
      · cases h
  · rintro rfl
    exact ofExtension?_extension d

end Dialect

end CompletionCheck
