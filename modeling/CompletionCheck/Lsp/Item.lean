import CompletionCheck.Candidate
import CompletionCheck.Json.Shape
import CompletionCheck.Lsp.NameField

/-!
# Completion items

What a language server offers, and the candidates that it is turned into.  An item has the members
that the protocol gives it, each of them in its shape, and only the label must be there; the texts
that may name a candidate and the server's own data are kept.  A list of items is decoded as a
whole or not at all, and every item gives one candidate.
-/

namespace CompletionCheck.Lsp

open Json (Shape)

structure Item where
  label : String
  detail : Option String := none
  insertText : Option String := none
  filterText : Option String := none
  sortText : Option String := none
  data : Json := .null

namespace Item

def positionShape : Shape :=
  .record [("line", .unsigned32), ("character", .unsigned32)]

def rangeShape : Shape :=
  .record [("start", positionShape), ("end", positionShape)]

def editShape : Shape :=
  .record [("range", rangeShape), ("newText", .text)]

/-- A change that inserts or replaces, as the user likes. -/
def insertReplaceShape : Shape :=
  .record [("newText", .text), ("insert", rangeShape), ("replace", rangeShape)]

def markupShape : Shape :=
  .record [("kind", .word ["plaintext", "markdown"]), ("value", .text)]

/-- What the user sees beside a label. -/
def labelDetailsShape : Shape :=
  .record [("detail", .nullable .text), ("description", .nullable .text)]

def commandShape : Shape :=
  .record [("title", .text), ("command", .text), ("arguments", .nullable (.listOf .anything))]

def members : List (String × Shape) :=
  [("label", .text),
   ("labelDetails", .nullable labelDetailsShape),
   ("kind", .nullable .signed32),
   ("detail", .nullable .text),
   ("documentation", .nullable (.either .text markupShape)),
   ("deprecated", .nullable .flag),
   ("preselect", .nullable .flag),
   ("sortText", .nullable .text),
   ("filterText", .nullable .text),
   ("insertText", .nullable .text),
   ("insertTextFormat", .nullable .signed32),
   ("insertTextMode", .nullable .signed32),
   ("textEdit", .nullable (.either editShape insertReplaceShape)),
   ("additionalTextEdits", .nullable (.listOf editShape)),
   ("command", .nullable commandShape),
   ("commitCharacters", .nullable (.listOf .text)),
   ("data", .anything),
   ("tags", .nullable (.listOf .signed32))]

def ofJson? (v : Json) : Option Item :=
  let text (name : String) : Option String := (Shape.memberD members name v).text?
  if (Shape.record members).fits v then
    (text "label").map fun label =>
      { label
        detail := text "detail"
        insertText := text "insertText"
        filterText := text "filterText"
        sortText := text "sortText"
        data := Shape.memberD members "data" v }
  else none

/-- The items of an answer that also says whether there are more of them. -/
def ofPartialList? (isIncomplete items : Json) : Option (List Item) :=
  match isIncomplete, items with
  | .bool _, .arr items => items.mapM ofJson?
  | _, _ => none

/-- The items of a completion result: none for `null`, those of an array, or those of a record
that also says whether there are more.  An array whose elements are all items is taken for just
these items. -/
def listOfJson? (v : Json) : Option (List Item) :=
  match v with
  | .null => some []
  | .arr items =>
    (items.mapM ofJson?).or <|
      match items with
      | [isIncomplete, items] => ofPartialList? isIncomplete items
      | _ => none
  | .obj _ => ofPartialList? (v.memberD "isIncomplete") (v.memberD "items")
  | _ => none

end Item

def followKeys (v : Json) : List String → Option Json
  | [] => some v
  | key :: rest => (v.member? key).bind fun inner => followKeys inner rest

/-- The name that an item has in a field, if it has one there. -/
def NameField.read (f : NameField) (item : Item) : Option String :=
  match f with
  | .label => some item.label
  | .detail => item.detail
  | .insertText => item.insertText
  | .filterText => item.filterText
  | .sortText => item.sortText
  | .data path => (followKeys item.data path).bind Json.text?

/-- The fields of the two names of a candidate. -/
structure NameFields where
  qualified : NameField := .label
  dialectQualified : Option NameField := none
deriving DecidableEq, Repr

/-- The candidate that an item is; the label stands in for a missing name. -/
def NameFields.candidate (f : NameFields) (item : Item) : Candidate where
  name := (f.qualified.read item).getD item.label
  dialectName := f.dialectQualified.bind fun field => field.read item

def NameFields.candidates? (f : NameFields) (result : Json) : Option (List Candidate) :=
  (Item.listOfJson? result).map fun items => items.map f.candidate

end CompletionCheck.Lsp
