import CompletionCheck.Json.Basic

/-!
# Messages

The values that the two sides of a connection exchange: requests, notifications and responses.
A value with a `method` is a request or a notification, and the identifier tells which; an
identifier that is `null` is one.  Any other value has to be a response.  What fits neither is no
message.
-/

namespace CompletionCheck.Lsp

/-- What tells a request from others; its response carries the same. -/
inductive Id
  | number (n : Int)
  | text (s : String)
  | null
deriving DecidableEq, Repr

namespace Id

def toJson : Id → Json
  | .number n => .int n
  | .text s => .str s
  | .null => .null

def ofJson? : Json → Option Id
  | .str s => some (.text s)
  | .null => some .null
  | v => v.signed64?.map .number

end Id

structure RpcError where
  code : Int
  message : String
  data : Option Json

namespace RpcError

def describe (code : Int) : String :=
  if code = -32700 then "Parse error"
  else if code = -32600 then "Invalid request"
  else if code = -32601 then "Method not found"
  else if code = -32602 then "Invalid params"
  else if code = -32603 then "Internal error"
  else if code = -32800 then "Canceled"
  else if code = -32801 then "Content modified"
  else "Server error"

def text (e : RpcError) : String :=
  describe e.code ++ ": " ++ e.message

/-- The error of a code, a message and data, if the first two are what they should be. -/
def ofParts? (code message : Json) (data : Option Json) : Option RpcError :=
  match code.signed64?, message.text? with
  | some code, some message => some ⟨code, message, data⟩
  | _, _ => none

/-- The error that a value is: an object of a code, a message and perhaps data, nothing else, or
the array of all three. -/
def ofJson? (v : Json) : Option RpcError :=
  match v with
  | .obj members =>
    if members.all fun m => m.1 = "code" || m.1 = "message" || m.1 = "data" then
      ofParts? (v.memberD "code") (v.memberD "message") (v.member? "data")
    else none
  | .arr [code, message, data] => ofParts? code message (some data)
  | _ => none

end RpcError

/-- Something that the other side tells without expecting an answer. -/
structure Notification where
  method : String
  params : Option Json

/-- A message that makes sense, by what the client makes of it: a response may be the one that is
waited for, a notification may be kept, and a request is answered at once. -/
inductive Message
  | response (id : Id) (result : Except RpcError Json)
  | notification (n : Notification)
  | request (id : Id) (method : String) (params : Option Json)

namespace Message

/-- Whether a value names the version of the protocol. -/
def hasVersion (v : Json) : Bool :=
  (v.memberD "jsonrpc").text? == some "2.0"

def ofCall? (v : Json) : Option Message :=
  match hasVersion v, (v.memberD "method").text? with
  | true, some method =>
    match v.member? "id" with
    | none => some (.notification ⟨method, v.member? "params"⟩)
    | some id => (Id.ofJson? id).map fun id => .request id method (v.member? "params")
  | _, _ => none

/-- The response that a value is.  A result decides, whatever stands beside it. -/
def ofAnswer? (v : Json) : Option Message :=
  match hasVersion v, (v.member? "id").bind Id.ofJson? with
  | true, some id =>
    match v.member? "result" with
    | some result => some (.response id (.ok result))
    | none => ((v.member? "error").bind RpcError.ofJson?).map fun e => .response id (.error e)
  | _, _ => none

def ofJson? (v : Json) : Option Message :=
  if (v.member? "method").isSome then ofCall? v else ofAnswer? v

end Message

def requestValue (id : Nat) (method : String) (params : Json) : Json :=
  .ofMembers [("jsonrpc", .str "2.0"), ("method", .str method), ("params", params),
    ("id", .int id)]

def notificationValue (method : String) (params : Json) : Json :=
  .ofMembers [("jsonrpc", .str "2.0"), ("method", .str method), ("params", params)]

/-- The empty answer to a request, as it is written. -/
def nullAnswer (id : Id) : Json :=
  .ofMembers [("jsonrpc", .str "2.0"), ("result", .null), ("id", id.toJson)]

end CompletionCheck.Lsp
