import Mathlib.Data.List.Forall2
import CompletionCheck.Proofs.Lsp.Refinement

/-!
# The life of a session, as it is written

A server is told `initialize` first, `initialized` when it has agreed, then whatever the calls of
the session come to, and `shutdown` and `exit` at the end.  A server may break off at any place: it
may refuse, say nothing, say something that makes no sense, or go.  Whatever it does, what has been
written by then is a beginning of this order, apart from the empty answers to its own requests,
which can come anywhere (`HasSaid`).

The two places where the order depends on the server are the first and the last request.  Whether a
response to a request was received is a matter of the messages alone (`Received`), and by
`Asks.ok_iff` it decides how the request ends.  So `initialized` follows the first request exactly
when it was granted, and `exit` follows the last exactly when it was answered, be it with an error.

In between, each call has its own share in what is written, whatever comes of it (`Call.Says`): a
configuration tells the settings and the text, a preparation nothing, and a question is one request.
-/

namespace CompletionCheck.Lsp

namespace Client

/-! ## What has been said -/

/-- Apart from empty answers, these are the messages that a client has written. -/
structure HasSaid (c : Client) (own : List Json) : Prop where
  calls : c.written.filter isCall = own
  answers : ∀ v ∈ c.written, isCall v = false → ∃ id, v = nullAnswer id

variable {c d : Client} {own said passed : List Json}

theorem HasSaid.append (h : c.HasSaid own) (hsaid : ∀ v ∈ said, isCall v = true)
    (hd : d.written = c.written ++ said ++ answersTo passed) : d.HasSaid (own ++ said) where
  calls := by
    rw [hd, List.filter_append, List.filter_append, h.calls, List.filter_eq_self.mpr hsaid,
      filter_isCall_answersTo, List.append_nil]
  answers v hv hcall := by
    rw [hd, List.append_assoc] at hv
    rcases List.mem_append.mp hv with hv | hv
    · exact h.answers v hv hcall
    · rcases List.mem_append.mp hv with hv | hv
      · exact absurd ((hsaid v hv).symm.trans hcall) (by simp)
      · exact eq_nullAnswer_of_mem_answersTo hv

theorem HasSaid.wrote (h : c.HasSaid own) {v : Json} (hv : isCall v = true) :
    (c.wrote v).HasSaid (own ++ [v]) := by
  have hwritten : (c.wrote v).written = c.written ++ [v] ++ answersTo [] := by
    show c.written ++ [v] = _
    exact (List.append_nil _).symm
  refine h.append ?_ hwritten
  intro w hw
  rw [List.mem_singleton.mp hw]
  exact hv

/-! ## Responses that are received -/

/-- `Received n result ms`: the first response with the number `n` among messages says `result`, and
all messages in front of it make sense. -/
inductive Received (n : Nat) (result : Except RpcError Json) : List Json → Prop
  | here {m : Json} {rest : List Json} :
      Message.ofJson? m = some (.response (.number n) result) → Received n result (m :: rest)
  | later {m : Json} {msg : Message} {rest : List Json} :
      Message.ofJson? m = some msg → (∀ other, msg ≠ .response (.number n) other) →
      Received n result rest → Received n result (m :: rest)

variable {n : Nat} {result : Except RpcError Json} {m : Json} {ms rest : List Json}

theorem received_cons_of_response {first : Except RpcError Json}
    (hm : Message.ofJson? m = some (.response (.number n) first)) :
    Received n result (m :: rest) ↔ first = result := by
  constructor
  · intro h
    cases h with
    | here hm' =>
        cases hm.symm.trans hm'
        rfl
    | later hm' hother =>
        cases hm.symm.trans hm'
        exact absurd rfl (hother first)
  · rintro rfl
    exact .here hm

theorem received_cons_of_other {msg : Message} (hm : Message.ofJson? m = some msg)
    (hother : ∀ other, msg ≠ .response (.number n) other) :
    Received n result (m :: rest) ↔ Received n result rest := by
  constructor
  · intro h
    cases h with
    | here hm' =>
        cases hm.symm.trans hm'
        exact absurd rfl (hother result)
    | later _ _ hrest => exact hrest
  · exact .later hm hother

theorem not_received_of_undecodable (hm : Message.ofJson? m = none) :
    ¬ Received n result (m :: rest) := by
  intro h
  cases h with
  | here hm' => exact absurd (hm.symm.trans hm') (by simp)
  | later hm' => exact absurd (hm.symm.trans hm') (by simp)

theorem Passes.received_iff {keeping : Bool} (h : Passes keeping (pickResponse n) c ms d) :
    Received n result (ms ++ rest) ↔ Received n result rest := by
  induction h with
  | nil => exact Iff.rfl
  | cons hm hp _ _ ih =>
      exact (received_cons_of_other hm (ne_of_pickResponse_eq_none hp)).trans ih

variable {method : String} {params : Json} {limit : Nat} {a : Arrival}
  {r : Except ServiceError (Except RpcError Json)}

/-- A search for a response that can write all its answers gives what is received, and nothing
else. -/
theorem Halts.ok_iff_received {keeping : Bool}
    (h : Halts keeping (pickResponse n) (noResponse method limit) c ms r d)
    (hopen : c.writesLeft = none) : r = .ok result ↔ Received n result ms := by
  cases h with
  | exhausted hp =>
      have hnone : ¬ Received n result ms := by
        rw [← List.append_nil ms, hp.received_iff]
        exact nofun
      exact iff_of_false (by simp [noResponse]) hnone
  | picked hp hm ha =>
      rw [hp.received_iff, received_cons_of_response (pickResponse_eq_some ha ▸ hm)]
      exact ⟨Except.ok.inj, congrArg Except.ok⟩
  | undecodable hp hm =>
      rw [hp.received_iff]
      exact iff_of_false (by simp) (not_received_of_undecodable hm)
  | unanswered hp _ _ hclosed =>
      exact absurd ((hp.answered.unlimited hopen).symm.trans hclosed) (by simp)

/-! ## A request -/

theorem unlimited_asked (h : c.writesLeft = none) (method : String) (params : Json) :
    (c.asked method params).writesLeft = none := by
  simp [asked, Client.wrote, skipped, h]

theorem Asks.ok_iff (h : c.Asks method params limit a r d) (hopen : c.writesLeft = none) :
    r = .ok result ↔ Received c.nextId result (c.inbox ++ a.messages) :=
  Halts.ok_iff_received h (unlimited_asked hopen method params)

theorem Asks.unlimited (h : c.Asks method params limit a r d) (hopen : c.writesLeft = none) :
    d.writesLeft = none := by
  obtain ⟨_, had⟩ := Halts.answered h
  exact had.unlimited (unlimited_asked hopen method params)

theorem Asks.written (h : c.Asks method params limit a r d) : ∃ passed,
    d.written = c.written ++ [requestValue c.nextId method params] ++ answersTo passed := by
  obtain ⟨passed, had⟩ := Halts.answered h
  exact ⟨passed, had.written⟩

/-- However a request ends, it is what has been said in it. -/
theorem Asks.hasSaid (h : c.Asks method params limit a r d) (hc : c.HasSaid own) :
    d.HasSaid (own ++ [requestValue c.nextId method params]) := by
  obtain ⟨passed, hwritten⟩ := h.written
  refine hc.append ?_ hwritten
  intro v hv
  rw [List.mem_singleton.mp hv]
  exact isCall_requestValue ..

end Client

namespace Session

open Client (HasSaid Received answersTo)

variable {own : List Json}

/-! ## Beginning -/

/-- The request by which a session begins. -/
def initializeRequest (cwd : String) (options : Options) (settings : Json) : Json :=
  requestValue 1 "initialize" (greetingParams (Lsp.rootUri cwd options.root) options settings)

/-- What a session writes when it begins, to `greeting` as its first request. -/
structure Begins (greeting : Json) (a : Arrival) (r : Except ServiceError Session) (c : Client) :
    Prop where
  /-- The first message is the first request. -/
  first : [greeting] <+: c.written
  /-- The session begins exactly when the request is granted. -/
  granted : (∃ s, r = .ok s) ↔ ∃ result, Received 1 (.ok result) a.messages
  /-- If it does not, nothing else was said. -/
  failed : ∀ e, r = .error e → c.HasSaid [greeting]
  /-- If it does, this was confirmed. -/
  begun : ∀ s, r = .ok s →
    s.client = c ∧ s.client.writesLeft = none ∧ c.HasSaid [greeting, initializedNotice]

section Begins

variable {cwd : String} {options : Options} {settings : Json} {a : Arrival} {c : Client}
  {r : Except ServiceError Session} {x : Except ServiceError (Except RpcError Json)}

theorem first_of_greets (h : Greets {} cwd options settings a x c) :
    [initializeRequest cwd options settings] <+: c.written := by
  obtain ⟨passed, hwritten⟩ := Client.Asks.written h
  exact ⟨answersTo passed, hwritten.symm⟩

theorem hasSaid_of_greets (h : Greets {} cwd options settings a x c) :
    c.HasSaid [initializeRequest cwd options settings] := by
  have hfresh : HasSaid {} [] := by
    refine ⟨rfl, ?_⟩
    intro v hv
    exact absurd hv List.not_mem_nil
  exact Client.Asks.hasSaid h hfresh

theorem begins_of_failure {e : ServiceError} (h : Greets {} cwd options settings a x c)
    (hx : ∀ result, x ≠ .ok (.ok result)) :
    Begins (initializeRequest cwd options settings) a (.error e) c where
  first := first_of_greets h
  granted := by
    refine iff_of_false (by simp) ?_
    rintro ⟨result, hreceived⟩
    exact hx result ((Client.Asks.ok_iff h rfl).mpr hreceived)
  failed _ _ := hasSaid_of_greets h
  begun s hs := absurd hs (by simp)

theorem begins_of_connect (h : connect {} cwd options settings a = (r, c)) :
    Begins (initializeRequest cwd options settings) a r c := by
  cases connect_exits h with
  | unsent hclosed => exact absurd hclosed (by simp)
  | unanswered hgreets => exact begins_of_failure hgreets (by simp)
  | rejected hgreets => exact begins_of_failure hgreets (by simp)
  | unconfirmed hgreets hclosed =>
      exact absurd ((Client.Asks.unlimited hgreets rfl).symm.trans hclosed) (by simp)
  | @begun result e hgreets =>
      have hgranted : Received 1 (.ok result) a.messages :=
        (Client.Asks.ok_iff hgreets rfl).mp rfl
      refine ⟨?_, ?_, ?_, ?_⟩
      · exact (first_of_greets hgreets).trans (List.prefix_append _ _)
      · exact iff_of_true ⟨_, rfl⟩ ⟨result, hgranted⟩
      · intro x hx
        exact absurd hx (by simp)
      · intro s hs
        obtain rfl := Except.ok.inj hs
        refine ⟨rfl, ?_, ?_⟩
        · simp [Client.wrote, Client.Asks.unlimited hgreets rfl]
        · exact (hasSaid_of_greets hgreets).wrote (isCall_notificationValue ..)

end Begins

/-! ## Calls -/

/-- `call.Says said`: this is the share of a call in what is written. -/
inductive Call.Says : Call → List Json → Prop
  /-- A configuration without a text tells the settings. -/
  | textless {o : Service.Options} {a : Arrival} :
      o.text = none → Says (.configure o a) [settingsNotice o.settings]
  /-- A configuration with a text tells the settings and opens a document. -/
  | opened {o : Service.Options} {a : Arrival} {text uri : String} : o.text = some text →
      Says (.configure o a) [settingsNotice o.settings, openMessage uri o.dialect text]
  /-- Or it replaces the text of a document. -/
  | changed {o : Service.Options} {a : Arrival} {text uri : String} {version : Nat} :
      o.text = some text →
      Says (.configure o a) [settingsNotice o.settings, changeMessage uri version text]
  | prepare (a : Arrival) : Says (.prepare a) []
  | complete (q : Service.Request) (a : Arrival) (n : Nat) (params : Json) :
      Says (.complete q a) [requestValue n completionMethod params]
  | arrive (a : Arrival) : Says (.arrive a) []

theorem Call.Says.isCall {call : Call} {said : List Json} (h : call.Says said) :
    ∀ v ∈ said, isCall v = true := by
  cases h with
  | textless | opened | changed =>
      simp [settingsNotice, openMessage, changeMessage]
  | complete => simp
  | prepare | arrive => exact fun _ hv => absurd hv List.not_mem_nil

/-- Whatever comes of a call, it writes its share and then answers. -/
theorem written_run (s : Session) (call : Call) (h : s.client.writesLeft = none) :
    ∃ said passed, call.Says said ∧
      (call.run s).2.client.written = s.client.written ++ said ++ answersTo passed := by
  obtain ⟨-, passed, -, hwritten, -⟩ := (progress_run s call h).written
  cases call with
  | configure o a =>
      rw [heard_configure h] at hwritten
      cases htext : o.text with
      | none =>
          rw [htext] at hwritten
          exact ⟨_, passed, .textless htext, hwritten⟩
      | some text =>
          rw [htext] at hwritten
          simp only [textMessage] at hwritten
          split at hwritten
          · exact ⟨_, passed, .changed htext, hwritten⟩
          · exact ⟨_, passed, .opened htext, hwritten⟩
  | prepare a => exact ⟨[], passed, .prepare a, by rw [List.append_nil]; exact hwritten⟩
  | complete q a =>
      rw [heard_complete h] at hwritten
      exact ⟨_, passed, .complete q a _ _, hwritten⟩
  | arrive a => exact ⟨[], passed, .arrive a, by rw [List.append_nil]; exact hwritten⟩

theorem hasSaid_afterCalls (calls : List Call) : ∀ {s : Session} {own : List Json},
    s.client.writesLeft = none → s.client.HasSaid own →
      ∃ said, List.Forall₂ Call.Says calls said ∧
        (afterCalls s calls).client.writesLeft = none ∧
        (afterCalls s calls).client.HasSaid (own ++ said.flatten) := by
  induction calls with
  | nil =>
      intro s own h hs
      refine ⟨[], .nil, h, ?_⟩
      show s.client.HasSaid (own ++ [])
      rwa [List.append_nil]
  | cons call rest ih =>
      intro s own h hs
      obtain ⟨first, passed, hsays, hwritten⟩ := written_run s call h
      have hfirst := hs.append hsays.isCall hwritten
      obtain ⟨said, hall, hopen, hrest⟩ := ih (progress_run s call h).unlimited hfirst
      refine ⟨first :: said, .cons hsays hall, hopen, ?_⟩
      rwa [List.append_assoc] at hrest

/-! ## Calls and cases -/

/-- A step of a session: a call, or a case that is run on it. -/
inductive Step
  | single (call : Call)
  | trial (t : Trial)

def Step.after (s : Session) : Step → Session
  | .single call => (call.run s).2
  | .trial t => (t.run s).2

def Step.calls (s : Session) : Step → List Call
  | .single call => [call]
  | .trial t => t.calls s

def afterSteps : Session → List Step → Session
  | s, [] => s
  | s, step :: rest => afterSteps (step.after s) rest

def stepCalls : Session → List Step → List Call
  | _, [] => []
  | s, step :: rest => step.calls s ++ stepCalls (step.after s) rest

theorem afterCalls_append (xs ys : List Call) : ∀ s : Session,
    afterCalls s (xs ++ ys) = afterCalls (afterCalls s xs) ys := by
  induction xs with
  | nil => intro s; rfl
  | cons call rest ih => intro s; exact ih _

theorem Step.after_eq (s : Session) (step : Step) : step.after s = afterCalls s (step.calls s) := by
  cases step with
  | single call => rfl
  | trial t => exact t.run_eq_afterCalls s

theorem afterSteps_eq (steps : List Step) : ∀ s : Session,
    afterSteps s steps = afterCalls s (stepCalls s steps) := by
  induction steps with
  | nil => intro s; rfl
  | cons step rest ih =>
      intro s
      rw [afterSteps, stepCalls, afterCalls_append, ← step.after_eq, ih]

/-! ## The end -/

/-- What a session writes at its end, when it has said `own` before. -/
structure Ends (own : List Json) (c : Client) (a : Arrival) (d : Client) : Prop where
  /-- When the request to shut down is answered, the session takes leave, and this is the very last
  that it writes. -/
  answered : (∃ result, Received c.nextId result (c.inbox ++ a.messages)) →
    d.HasSaid (own ++ [shutdownRequest c.nextId, exitNotice]) ∧
      [exitNotice] <:+ d.written
  /-- When it is not, nothing else is said. -/
  unanswered : (¬ ∃ result, Received c.nextId result (c.inbox ++ a.messages)) →
    d.HasSaid (own ++ [shutdownRequest c.nextId])

theorem ends_of_shutdown {c : Client} (hopen : c.writesLeft = none) (hc : c.HasSaid own)
    (limit : Nat) (a : Arrival) : Ends own c a (shutdown c limit a).1.2 := by
  rcases hrun : (shutdown c limit a).1 with ⟨r, d⟩
  cases shutdown_cases hrun with
  | unsent hclosed => exact absurd (hopen.symm.trans hclosed) (by simp)
  | unanswered hasks =>
      refine ⟨?_, ?_⟩
      · rintro ⟨result, hreceived⟩
        exact absurd ((hasks.ok_iff hopen).mpr hreceived) (by simp)
      · intro _
        exact hasks.hasSaid hc
  | @left result e d r hasks hwrite =>
      obtain ⟨-, -, rfl⟩ | ⟨-, hclosed, -⟩ := Client.write_cases hwrite
      · have hreceived := (hasks.ok_iff hopen).mp rfl
        have hleft := (hasks.hasSaid hc).wrote (isCall_notificationValue "exit" .null)
        rw [List.append_assoc] at hleft
        refine ⟨?_, ?_⟩
        · intro _
          exact ⟨hleft, List.suffix_append _ _⟩
        · intro hnone
          exact absurd ⟨result, hreceived⟩ hnone
      · exact absurd ((hasks.unlimited hopen).symm.trans hclosed) (by simp)

/-! ## The whole session -/

/-- **A session speaks in order.**  Whatever the server does: a session begins with its first
request, and goes on exactly when this was granted, which it confirms.  Then each call of each step
has said its share, one after the other.  And wherever the session ends, it asks the server to shut
down, and takes leave exactly when this was answered. -/
theorem session_speaks_in_order {cwd : String} {options : Options} {settings : Json} {a : Arrival}
    {r : Except ServiceError Session} {c : Client}
    (h : connect {} cwd options settings a = (r, c)) :
    Begins (initializeRequest cwd options settings) a r c ∧
    ∀ s, r = .ok s → ∀ steps : List Step,
      ∃ said, List.Forall₂ Call.Says (stepCalls s steps) said ∧
        (afterSteps s steps).client.HasSaid
          ([initializeRequest cwd options settings, initializedNotice] ++ said.flatten) ∧
        ∀ limit b,
          Ends ([initializeRequest cwd options settings, initializedNotice] ++ said.flatten)
            (afterSteps s steps).client b (shutdown (afterSteps s steps).client limit b).1.2 := by
  have hbegins := begins_of_connect h
  refine ⟨hbegins, ?_⟩
  intro s hs steps
  obtain ⟨rfl, hopen, hsaid⟩ := hbegins.begun s hs
  obtain ⟨said, hall, hstill, hsteps⟩ := hasSaid_afterCalls (stepCalls s steps) hopen hsaid
  rw [← afterSteps_eq] at hstill hsteps
  exact ⟨said, hall, hsteps, ends_of_shutdown hstill hsteps⟩

/-- A case whose question is answered, and a configuration without a text, which fails. -/
def errands : List Step :=
  [.trial
     { case := plainCase "a", settings := .null, completing := { messages := [echo 2 "a"] } },
   .single (.configure ⟨none, .typeScript, .null⟩ {})]

/-- After these errands the server is asked to shut down.  It refuses, and is left all the same. -/
theorem session_speaks_in_order_errands :
    connect {} "/" {} .null
        { messages := [.obj [("jsonrpc", .str "2.0"), ("id", .int 1), ("result", .null)]] }
      = (.ok greeted, greeted.client) ∧
    ∃ said, List.Forall₂ Call.Says (stepCalls greeted errands) said ∧
      (shutdown (afterSteps greeted errands).client 0 { messages := [echo 3 "no"] }).1.2.HasSaid
        ([initializeRequest "/" {} .null, initializedNotice] ++ said.flatten
          ++ [shutdownRequest 3, exitNotice]) := by
  have hconnect : connect {} "/" {} .null
        { messages := [.obj [("jsonrpc", .str "2.0"), ("id", .int 1), ("result", .null)]] }
      = (.ok greeted, greeted.client) := rfl
  obtain ⟨-, hsteps⟩ := session_speaks_in_order hconnect
  obtain ⟨said, hall, -, hends⟩ := hsteps greeted rfl errands
  have hreceived : Received 3 (.error ⟨0, "no", none⟩) [echo 3 "no"] := .here rfl
  exact ⟨hconnect, said, hall, ((hends 0 { messages := [echo 3 "no"] }).answered
    ⟨_, hreceived⟩).1⟩

end Session

end CompletionCheck.Lsp
