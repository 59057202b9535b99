import CompletionCheck.Proofs.Lsp.DocumentSync

/-!
# A language server

A server as a session may meet it.  It handles the messages of its client one after the other, in
the order in which they were written.  Of each document it keeps the text that it was sent last,
and what it offers at a position depends on this text and the position alone.  What it says, and
when, is open: a result may be sent at any time after its request was handled, several times, or
never, and notifications, requests, and responses that nobody waits for may stand anywhere in
between.

`Server.Moves` is this as a relation, and `Server.Moves.proper` is all that is used of it: whatever
a server says makes sense, and a response either carries a result that is due at its place or
cannot be taken for the response to a request that is open.
-/

namespace CompletionCheck.Lsp

/-! ## Offers -/

/-- An item as a server sends it. -/
structure SentItem where
  value : Json
  item : Item
  decodes : Item.ofJson? value = some item

inductive Offer
  | nothing
  | array (items : List SentItem)
  /-- A record that also says whether there is more. -/
  | list (members : List (String × Json)) (incomplete : Bool) (items : List SentItem)
    (more : members.lookup "isIncomplete" = some (.bool incomplete))
    (holds : members.lookup "items" = some (.arr (items.map SentItem.value)))

namespace Offer

def result : Offer → Json
  | .nothing => .null
  | .array items => .arr (items.map SentItem.value)
  | .list members _ _ _ _ => .obj members

def items : Offer → List Item
  | .nothing => []
  | .array items => items.map SentItem.item
  | .list _ _ items _ _ => items.map SentItem.item

theorem mapM_ofJson? (items : List SentItem) :
    (items.map SentItem.value).mapM Item.ofJson? = some (items.map SentItem.item) := by
  induction items with
  | nil => rfl
  | cons i rest ih => simp [List.mapM_cons, i.decodes, ih]

theorem listOfJson?_result (o : Offer) : Item.listOfJson? o.result = some o.items := by
  cases o with
  | nothing => rfl
  | array items =>
      -- an array is read as its items first, whatever else it could be
      unfold result Item.listOfJson?
      simp only [mapM_ofJson?]
      rfl
  | list members incomplete items more holds =>
      simp only [result, Item.listOfJson?, Json.memberD, Json.member?_obj, more, holds,
        Option.getD_some, Item.ofPartialList?, mapM_ofJson?]
      rfl

end Offer

/-! ## What a server takes in -/

/-- The text that a message sends. -/
def newText? (v : Json) : Option String :=
  let params := v.memberD "params"
  if methodOf? v = some "textDocument/didOpen" then
    ((params.memberD "textDocument").memberD "text").text?
  else
    match params.memberD "contentChanges" with
    | .arr changes => changes.getLast?.bind fun change => (change.memberD "text").text?
    | _ => none

def position? (v : Json) : Option Position :=
  match v.memberD "line", v.memberD "character" with
  | .int line, .int character => some ⟨line.toNat, character.toNat⟩
  | _, _ => none

/-- A server, by what it answers: it is free in what it offers at a position of a text, and when it
says so is left to `Moves`. -/
structure Server where
  /-- The result of the first request. -/
  greeting : Json
  /-- What it says to a question at a position of a text. -/
  offer : String → Position → Except RpcError Offer

/-- The state of a server.  Messages are handled in the order in which they were sent; what is due
stays due when it was sent, so a server may send it late, more than once or never. -/
structure Server.State where
  /-- How many messages of its client it has handled. -/
  handled : Nat := 0
  /-- The texts of the documents, by their URIs. -/
  texts : String → Option String := fun _ => none
  /-- The results that it may send, with the identifiers of their requests. -/
  due : List (Id × Except RpcError Json) := []

namespace Server

variable (server : Server)

/-- The texts after a message. -/
def store (texts : String → Option String) (v : Json) : String → Option String :=
  match Session.syncedUri? v, newText? v with
  | some uri, some text => fun u => if u = uri then some text else texts u
  | _, _ => texts

/-- The result that a message asks for, by the texts that the server has. -/
def resultOf? (texts : String → Option String) (v : Json) : Option (Except RpcError Json) :=
  let params := v.memberD "params"
  if methodOf? v = some "initialize" then some (.ok server.greeting)
  else if methodOf? v = some Session.completionMethod then do
    let text ← texts (← ((params.memberD "textDocument").memberD "uri").text?)
    let position ← position? (params.memberD "position")
    return (server.offer text position).map Offer.result
  else none

def response? (texts : String → Option String) (v : Json) :
    Option (Id × Except RpcError Json) := do
  let id ← (callId? v).bind Id.ofJson?
  let result ← server.resultOf? texts v
  return (id, result)

def handle (st : State) (v : Json) : State where
  handled := st.handled + 1
  texts := store st.texts v
  due := st.due ++ (server.response? st.texts v).toList

def after (ms : List Json) : State :=
  ms.foldl server.handle {}

/-! ## What a server says -/

/-- `Moves server sent next st out st'`: a server that has been sent `sent` goes from `st` to `st'`
and says `out`.  Its client has finished the requests below the number `next`. -/
inductive Moves (sent : List Json) (next : Nat) : State → List Json → State → Prop
  | rest (st : State) : Moves sent next st [] st
  /-- It handles the next message. -/
  | handles {st st' : State} {out : List Json} {v : Json} : sent[st.handled]? = some v →
      Moves sent next (server.handle st v) out st' → Moves sent next st out st'
  /-- It sends a result that is due. -/
  | answers {st st' : State} {out : List Json} {m : Json} {id : Id}
      {result : Except RpcError Json} :
      (id, result) ∈ st.due → Message.ofJson? m = some (.response id result) →
      Moves sent next st out st' → Moves sent next st (m :: out) st'
  | notifies {st st' : State} {out : List Json} {m : Json} {n : Notification} :
      Message.ofJson? m = some (.notification n) →
      Moves sent next st out st' → Moves sent next st (m :: out) st'
  | requests {st st' : State} {out : List Json} {m : Json} {id : Id} {method : String}
      {params : Option Json} : Message.ofJson? m = some (.request id method params) →
      Moves sent next st out st' → Moves sent next st (m :: out) st'
  /-- It sends a response that belongs to no request or to a finished one. -/
  | repeats {st st' : State} {out : List Json} {m : Json} {id : Id}
      {result : Except RpcError Json} : (∀ n : Nat, next ≤ n → id ≠ .number n) →
      Message.ofJson? m = some (.response id result) →
      Moves sent next st out st' → Moves sent next st (m :: out) st'

/-! ## The state of a server -/

variable {server} {sent : List Json} {next : Nat} {st st' : State} {out : List Json}

theorem after_concat (ms : List Json) (v : Json) :
    server.after (ms ++ [v]) = server.handle (server.after ms) v := by
  rw [after, List.foldl_append]
  rfl

theorem due_foldl {id : Id} {result : Except RpcError Json} (ms : List Json) : ∀ {st : State},
    (id, result) ∈ (ms.foldl server.handle st).due →
      (id, result) ∈ st.due ∨ ∃ before v later, ms = before ++ v :: later ∧
        server.response? (before.foldl server.handle st).texts v = some (id, result) := by
  induction ms with
  | nil => exact fun h => Or.inl h
  | cons m rest ih =>
      intro st h
      rcases ih h with h | ⟨before, v, later, rfl, hv⟩
      · rcases List.mem_append.mp h with h | h
        · exact Or.inl h
        · exact Or.inr ⟨[], m, rest, rfl, Option.mem_toList.mp h⟩
      · exact Or.inr ⟨m :: before, v, later, rfl, hv⟩

theorem texts_foldl_of_quiet (ms : List Json) : ∀ {st : State},
    (∀ v ∈ ms, Session.syncedUri? v = none) → (ms.foldl server.handle st).texts = st.texts := by
  induction ms with
  | nil => exact fun _ => rfl
  | cons m rest ih =>
      intro st h
      rw [List.foldl_cons, ih fun v hv => h v (List.mem_cons_of_mem _ hv), handle, store,
        h m List.mem_cons_self]

/-- A message that the server may send: it makes sense, and a response answers one of the messages
sent by the texts that were sent before it, or is no response to a request that is open. -/
def Proper (server : Server) (sent : List Json) (next : Nat) (m : Json) : Prop :=
  ∃ msg, Message.ofJson? m = some msg ∧ ∀ id result, msg = .response id result →
    (∃ before v later, sent = before ++ v :: later ∧
      server.response? (server.after before).texts v = some (id, result)) ∨
    ∀ n : Nat, next ≤ n → id ≠ .number n

/-- A server has the state that the messages handled have brought it to. -/
def Upright (server : Server) (sent : List Json) (st : State) : Prop :=
  st.handled ≤ sent.length ∧ st = server.after (sent.take st.handled)

theorem Upright.handle {v : Json} (h : server.Upright sent st) (hv : sent[st.handled]? = some v) :
    server.Upright sent (server.handle st v) := by
  obtain ⟨hle, hst⟩ := h
  obtain ⟨hlt, hget⟩ := List.getElem?_eq_some_iff.mp hv
  refine ⟨hlt, ?_⟩
  have hhandled : (server.handle st v).handled = st.handled + 1 := rfl
  rw [hhandled, List.take_succ_eq_append_getElem hlt, hget, after_concat, ← hst]

theorem Upright.append (h : server.Upright sent st) (more : List Json) :
    server.Upright (sent ++ more) st := by
  obtain ⟨hle, hst⟩ := h
  refine ⟨Nat.le_trans hle (by simp), ?_⟩
  rw [List.take_append_of_le_length hle]
  exact hst

theorem Moves.upright (h : server.Moves sent next st out st') (hst : server.Upright sent st) :
    server.Upright sent st' := by
  induction h with
  | rest => exact hst
  | handles hv _ ih => exact ih (hst.handle hv)
  | answers _ _ _ ih | notifies _ _ ih | requests _ _ ih | repeats _ _ _ ih => exact ih hst

theorem Upright.due {id : Id} {result : Except RpcError Json} (h : server.Upright sent st)
    (hdue : (id, result) ∈ st.due) :
    ∃ before v later, sent = before ++ v :: later ∧
      server.response? (server.after before).texts v = some (id, result) := by
  obtain ⟨-, hst⟩ := h
  rw [hst] at hdue
  rcases due_foldl _ hdue with hdue | ⟨before, v, later, htake, hv⟩
  · exact absurd hdue List.not_mem_nil
  · refine ⟨before, v, later ++ sent.drop st.handled, ?_, hv⟩
    rw [← List.cons_append, ← List.append_assoc, ← htake, List.take_append_drop]

theorem Moves.proper (h : server.Moves sent next st out st') (hst : server.Upright sent st) :
    ∀ m ∈ out, server.Proper sent next m := by
  induction h with
  | rest => exact fun _ hm => absurd hm List.not_mem_nil
  | handles hv _ ih => exact ih (hst.handle hv)
  | @answers st st' out x id result hdue hx _ ih =>
      intro m hm
      rcases List.mem_cons.mp hm with rfl | hm
      · refine ⟨_, hx, fun id' result' heq => Or.inl ?_⟩
        cases heq
        exact hst.due hdue
      · exact ih hst m hm
  | @notifies st st' out x n hx _ ih =>
      intro m hm
      rcases List.mem_cons.mp hm with rfl | hm
      · exact ⟨_, hx, fun _ _ heq => Message.noConfusion heq⟩
      · exact ih hst m hm
  | @requests st st' out x id method params hx _ ih =>
      intro m hm
      rcases List.mem_cons.mp hm with rfl | hm
      · exact ⟨_, hx, fun _ _ heq => Message.noConfusion heq⟩
      · exact ih hst m hm
  | @repeats st st' out x id result hid hx _ ih =>
      intro m hm
      rcases List.mem_cons.mp hm with rfl | hm
      · refine ⟨_, hx, fun id' result' heq => Or.inr ?_⟩
        cases heq
        exact hid
      · exact ih hst m hm

/-! ## What a session writes, read by a server -/

@[simp] theorem newText?_openMessage (uri : String) (d : Dialect) (text : String) :
    newText? (Session.openMessage uri d text) = some text := by
  simp [newText?, Session.openMessage, Session.openParams, Json.memberD, Json.member?_ofMembers,
    Json.lookup_cons_ite, notificationValue, methodOf?]

@[simp] theorem newText?_changeMessage (uri : String) (version : Nat) (text : String) :
    newText? (Session.changeMessage uri version text) = some text := by
  simp [newText?, Session.changeMessage, Session.changeParams, Json.memberD,
    Json.member?_ofMembers, Json.lookup_cons_ite, notificationValue, methodOf?]

@[simp] theorem store_openMessage (texts : String → Option String) (uri : String) (d : Dialect)
    (text : String) : store texts (Session.openMessage uri d text) uri = some text := by
  simp [store]

@[simp] theorem store_changeMessage (texts : String → Option String) (uri : String)
    (version : Nat) (text : String) :
    store texts (Session.changeMessage uri version text) uri = some text := by
  simp [store]

theorem position?_completionParams (uri : String) (p : Position) :
    position? ((Session.completionParams uri p).memberD "position") = some p := by
  simp [position?, Session.completionParams, Json.memberD, Json.member?_ofMembers,
    Json.lookup_cons_ite]

theorem of_response? {texts : String → Option String} {v : Json} {id : Id}
    {result : Except RpcError Json} (h : server.response? texts v = some (id, result)) :
    (callId? v).bind Id.ofJson? = some id ∧ server.resultOf? texts v = some result := by
  rw [response?] at h
  obtain ⟨i, hi, h⟩ := Option.bind_eq_some_iff.mp h
  obtain ⟨r, hr, h⟩ := Option.bind_eq_some_iff.mp h
  cases h
  exact ⟨hi, hr⟩

theorem resultOf?_question {texts : String → Option String} {n : Nat} {uri text : String}
    {p : Position} (htext : texts uri = some text) :
    server.resultOf? texts
      (requestValue n Session.completionMethod (Session.completionParams uri p))
        = some ((server.offer text p).map Offer.result) := by
  have huri : (((Session.completionParams uri p).memberD "textDocument").memberD "uri").text?
      = some uri := by
    simp [Session.completionParams, Json.memberD, Json.member?_ofMembers, Json.lookup_cons_ite]
  have hmethod : Session.completionMethod ≠ "initialize" := by decide
  simp [resultOf?, hmethod, huri, htext, position?_completionParams]

end Server

end CompletionCheck.Lsp
