import CompletionCheck.Notice

/-!
# Where names are read from

The settings say in which field of a completion item a candidate's name stands: one of the plain
text fields, or a place inside the item's free-form `data`, given by the keys that lead to it.
A field has exactly one written form.
-/

namespace CompletionCheck.Lsp

/-- The place of a name in a completion item. -/
inductive NameField
  | label
  | detail
  | insertText
  | filterText
  | sortText
  /-- The keys that lead from `data` to the name. -/
  | data (path : List String)
deriving DecidableEq, Repr, Inhabited

structure UnknownField where
  text : String
deriving DecidableEq, Repr

def UnknownField.message (e : UnknownField) : String :=
  "unknown completion item field `" ++ e.text ++
    "`; expected label, detail, insertText, filterText, sortText or data.<path>"

namespace NameField

/-- What begins the written form of a place in `data`. -/
def dataLead : List Char := ['d', 'a', 't', 'a', '.']

def text : NameField → String
  | .label => "label"
  | .detail => "detail"
  | .insertText => "insertText"
  | .filterText => "filterText"
  | .sortText => "sortText"
  | .data path => String.ofList (dataLead ++ ['.'].intercalate (path.map String.toList))

/-- The fields that are plain texts of an item. -/
def plain : List NameField := [.label, .detail, .insertText, .filterText, .sortText]

/-- The keys of a place in `data` without what begins it; every key needs a character. -/
def path? (cs : List Char) : Option (List String) :=
  let keys := cs.splitOn '.'
  if keys.any List.isEmpty then none else some (keys.map String.ofList)

def parse (s : String) : Except UnknownField NameField :=
  match plain.find? fun f => f.text = s with
  | some f => .ok f
  | none =>
    if dataLead.isPrefixOf s.toList then
      match path? (s.toList.drop dataLead.length) with
      | some path => .ok (.data path)
      | none => .error ⟨s⟩
    else .error ⟨s⟩

end NameField

end CompletionCheck.Lsp
