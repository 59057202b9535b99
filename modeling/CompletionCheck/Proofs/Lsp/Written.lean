import CompletionCheck.Lsp.Session
import CompletionCheck.Proofs.Json.Members

/-!
# What a client writes, read by the other side

A client writes requests, notifications and empty answers.  The other side tells them apart by two
members: a value with a `method` is a call, and a call with an `id` wants an answer.  The lemmas
here say what is read from each kind of value, so that nothing later has to look into how a value
is put together.
-/

namespace CompletionCheck.Lsp

open Json (member?_ofMembers)

def methodOf? (v : Json) : Option String :=
  (v.memberD "method").text?

def isCall (v : Json) : Bool :=
  (methodOf? v).isSome

/-- The identifier under which a value asks for an answer. -/
def callId? (v : Json) : Option Json :=
  if (v.member? "method").isSome then v.member? "id" else none

@[simp] theorem methodOf?_requestValue (id : Nat) (method : String) (params : Json) :
    methodOf? (requestValue id method params) = some method := by
  simp [methodOf?, requestValue, Json.memberD, member?_ofMembers, Json.lookup_cons_ite]

@[simp] theorem methodOf?_notificationValue (method : String) (params : Json) :
    methodOf? (notificationValue method params) = some method := by
  simp [methodOf?, notificationValue, Json.memberD, member?_ofMembers, Json.lookup_cons_ite]

@[simp] theorem methodOf?_nullAnswer (id : Id) : methodOf? (nullAnswer id) = none := by
  simp [methodOf?, nullAnswer, Json.memberD, member?_ofMembers, Json.lookup_cons_ite]

@[simp] theorem isCall_requestValue (id : Nat) (method : String) (params : Json) :
    isCall (requestValue id method params) = true := by
  rw [isCall, methodOf?_requestValue]
  rfl

@[simp] theorem isCall_notificationValue (method : String) (params : Json) :
    isCall (notificationValue method params) = true := by
  rw [isCall, methodOf?_notificationValue]
  rfl

@[simp] theorem isCall_nullAnswer (id : Id) : isCall (nullAnswer id) = false := by
  rw [isCall, methodOf?_nullAnswer]
  rfl

@[simp] theorem callId?_requestValue (id : Nat) (method : String) (params : Json) :
    callId? (requestValue id method params) = some (.int id) := by
  simp [callId?, requestValue, member?_ofMembers, Json.lookup_cons_ite]

@[simp] theorem callId?_notificationValue (method : String) (params : Json) :
    callId? (notificationValue method params) = none := by
  simp [callId?, notificationValue, member?_ofMembers, Json.lookup_cons_ite]

@[simp] theorem callId?_nullAnswer (id : Id) : callId? (nullAnswer id) = none := by
  simp [callId?, nullAnswer, member?_ofMembers, Json.lookup_cons_ite]

@[simp] theorem memberD_params_requestValue (id : Nat) (method : String) (params : Json) :
    (requestValue id method params).memberD "params" = params := by
  simp [requestValue, Json.memberD, member?_ofMembers, Json.lookup_cons_ite]

@[simp] theorem memberD_params_notificationValue (method : String) (params : Json) :
    (notificationValue method params).memberD "params" = params := by
  simp [notificationValue, Json.memberD, member?_ofMembers]

end CompletionCheck.Lsp
