import CompletionCheck.Proofs.Lsp.ClientRun

/-!
# Requests of the other side

The other side asks too, and waits for an answer.  A client meets its requests in three loops: while
it waits for a response, while it waits for a notification, and while it takes in what has arrived
in order to forget.  Each loop ends in its own way, and what it leaves behind is for the next
operation.  So a request could be lost between two loops, or answered by both.

It is not.  `written_perform` splits the queue of a single operation into what it has taken and what
it has left, and says that what it has written beyond its own call are the answers to the former.
Chained over a run, the parts taken make up the incoming stream up to what is unread at the end, and
the answers are those to the requests in it, in their order (`requests_answered_once`).

What a request is and how its answer reads is said here in terms of the message that arrives
(`wantsAnswer`, `emptyAnswer`): the answer repeats the identifier as it stood in the request.
-/

namespace CompletionCheck.Lsp

/-- Whether a message is a request: it makes sense, it names a method, and it has an identifier,
which may be `null`. -/
def wantsAnswer (m : Json) : Bool :=
  (Message.ofJson? m).isSome && (callId? m).isSome

/-- The empty answer to a message, with the identifier that stands in it. -/
def emptyAnswer (m : Json) : Json :=
  .ofMembers [("jsonrpc", .str "2.0"), ("result", .null), ("id", m.memberD "id")]

/-! ## Reading a request -/

theorem Id.toJson_of_ofJson? {v : Json} {id : Id} (h : Id.ofJson? v = some id) :
    id.toJson = v := by
  cases v with
  | str | null => obtain rfl := Option.some.inj h; rfl
  | int n =>
      obtain ⟨k, hk, rfl⟩ := Option.map_eq_some_iff.mp h
      obtain rfl : n = k := by
        rw [Json.signed64?] at hk
        split at hk
        · exact Option.some.inj hk
        · exact absurd hk (by simp)
      rfl
  | bool | float | arr | obj => exact absurd h (by simp [Id.ofJson?, Json.signed64?])

/-- The identifier under which a message asks for an answer. -/
def Message.askedUnder? : Message → Option Json
  | .request id _ _ => some id.toJson
  | .response .. | .notification _ => none

theorem callId?_of_ofJson? {m : Json} {msg : Message} (h : Message.ofJson? m = some msg) :
    callId? m = msg.askedUnder? := by
  unfold Message.ofJson? at h
  unfold callId?
  split at h
  · next hmethod =>
      rw [if_pos hmethod]
      unfold Message.ofCall? at h
      split at h
      · next method _ _ =>
          cases hid : m.member? "id" with
          | none =>
              simp only [hid] at h
              obtain rfl := Option.some.inj h
              rfl
          | some v =>
              simp only [hid] at h
              obtain ⟨id, hv, rfl⟩ := Option.map_eq_some_iff.mp h
              exact congrArg some (Id.toJson_of_ofJson? hv).symm
      · exact absurd h (by simp)
  · next hmethod =>
      rw [if_neg hmethod]
      unfold Message.ofAnswer? at h
      split at h
      · split at h
        · obtain rfl := Option.some.inj h
          rfl
        · obtain ⟨e, -, rfl⟩ := Option.map_eq_some_iff.mp h
          rfl
      · exact absurd h (by simp)

theorem emptyAnswer_of_callId? {m : Json} {id : Id} (h : callId? m = some id.toJson) :
    emptyAnswer m = nullAnswer id := by
  have hid : m.memberD "id" = id.toJson := by
    unfold callId? at h
    split at h
    · rw [Json.memberD, h]
      rfl
    · exact absurd h (by simp)
  rw [emptyAnswer, nullAnswer, hid]

namespace Client

/-- The answer to a message is the empty answer, and only a request gets it. -/
theorem answerOf?_eq (m : Json) :
    (Message.ofJson? m).bind answerOf? = if wantsAnswer m then some (emptyAnswer m) else none := by
  cases hm : Message.ofJson? m with
  | none => simp [wantsAnswer, hm]
  | some msg =>
      have hid := callId?_of_ofJson? hm
      cases msg with
      | request id method params =>
          simp [wantsAnswer, hm, hid, Message.askedUnder?, answerOf?, emptyAnswer_of_callId? hid]
      | response | notification => simp [wantsAnswer, hm, hid, Message.askedUnder?, answerOf?]

theorem answersTo_eq_map (ms : List Json) :
    answersTo ms = (ms.filter wantsAnswer).map emptyAnswer := by
  induction ms with
  | nil => rfl
  | cons m ms ih =>
      rw [answersTo, List.filterMap_cons, answerOf?_eq, ← answersTo, ih]
      cases hm : wantsAnswer m <;> simp [hm]

/-! ## What a turn writes -/

theorem isCall_of_mem_calls {op : Operation} {n : Nat} {v : Json} (h : v ∈ op.calls n) :
    isCall v = true := by
  cases op with
  | request | notify =>
      obtain rfl := List.mem_singleton.mp h
      simp
  | wait | forget => exact absurd h List.not_mem_nil

namespace Turn

/-- What a turn writes of its own: its request or notification, if it makes one. -/
def calls (t : Turn) : List Json := t.move.operation.calls t.before.nextId

/-- The answers to the requests among the messages that a turn takes. -/
def answers (t : Turn) : List Json := (t.taken.filter wantsAnswer).map emptyAnswer

/-- What a turn does with the messages that it finds or that arrive in it. -/
structure Replies (t : Turn) : Prop where
  /-- It takes them from the front. -/
  queue : t.queue = t.taken ++ t.after.inbox
  /-- It writes its own call, and then answers what it has taken. -/
  written : t.after.written = t.before.written ++ t.calls ++ t.answers
  /-- It has taken nothing by the time it writes its call: when this cannot be done, everything is
  left where it is. -/
  before_taking : t.calls ≠ [] →
    (t.before.perform { t.move with room := some 0 }).2.inbox = t.queue

end Turn

theorem Turn.answers_eq (t : Turn) : t.answers = answersTo t.taken :=
  (answersTo_eq_map t.taken).symm

/-- Calls and answers are told apart by whether a method is named. -/
theorem Turn.filter_calls (t : Turn) : (t.calls ++ t.answers).filter isCall = t.calls := by
  have hcalls : t.calls.filter isCall = t.calls := by
    refine List.filter_eq_self.mpr ?_
    intro v hv
    exact isCall_of_mem_calls hv
  rw [List.filter_append, hcalls, t.answers_eq, filter_isCall_answersTo, List.append_nil]

theorem Turn.filter_answers (t : Turn) :
    (t.calls ++ t.answers).filter (fun v => !isCall v) = t.answers := by
  have hcalls : t.calls.filter (fun v => !isCall v) = [] := by
    refine List.filter_eq_nil_iff.mpr ?_
    intro v hv
    rw [isCall_of_mem_calls hv]
    exact Bool.false_ne_true
  have hanswers : t.answers.filter (fun v => !isCall v) = t.answers := by
    refine List.filter_eq_self.mpr ?_
    intro v hv
    rw [t.answers_eq] at hv
    obtain ⟨id, rfl⟩ := eq_nullAnswer_of_mem_answersTo hv
    show (!isCall (nullAnswer id)) = true
    rw [isCall_nullAnswer]
    rfl
  rw [List.filter_append, hcalls, hanswers, List.nil_append]

theorem inbox_perform_refused {c : Client} {m : Move} (hroom : m.room = some 0)
    (hcalls : m.operation.calls c.nextId ≠ []) :
    (c.perform m).2.inbox = c.inbox ++ m.arrival.messages := by
  rcases hrun : c.perform m with ⟨r, d⟩
  cases perform_cases hrun with
  | refused => rfl
  | spared hfree => exact absurd (hfree hroom) hcalls
  | searched hfree => exact absurd (hfree hroom) hcalls

theorem replies_perform {c : Client} {m : Move} (h : (c.perform m).1 ≠ .error (.io .brokenPipe)) :
    (⟨c, m, (c.perform m).1, (c.perform m).2⟩ : Turn).Replies := by
  obtain ⟨taken, hqueue, hwritten⟩ := written_perform h
  have htaken : Turn.taken ⟨c, m, (c.perform m).1, (c.perform m).2⟩ = taken := Turn.taken_eq hqueue
  refine ⟨?_, ?_, ?_⟩
  · show c.inbox ++ m.arrival.messages = _
    rw [htaken]
    exact hqueue
  · rw [Turn.answers_eq, htaken]
    exact hwritten
  · intro hcalls
    exact inbox_perform_refused rfl hcalls

/-! ## What a run writes -/

theorem replies_of_mem_turns (moves : List Move) : ∀ {c : Client},
    (∀ t ∈ turns c moves, t.result ≠ .error (.io .brokenPipe)) →
      ∀ t ∈ turns c moves, t.Replies := by
  induction moves with
  | nil => intro c _ t ht; exact absurd ht List.not_mem_nil
  | cons m rest ih =>
      intro c h t ht
      rw [turns] at h ht
      obtain ⟨hm, hrest⟩ := List.forall_mem_cons.mp h
      rcases List.mem_cons.mp ht with rfl | ht
      · exact replies_perform hm
      · exact ih hrest t ht

/-- The incoming stream is what the turns have taken, one after the other, and what is unread. -/
theorem incoming_eq_taken (moves : List Move) : ∀ c : Client,
    c.inbox ++ incoming moves
      = (turns c moves).flatMap Turn.taken ++ (c.afterMoves moves).inbox := by
  induction moves with
  | nil => intro c; simp [incoming, turns, afterMoves]
  | cons m rest ih =>
      intro c
      have hqueue : c.inbox ++ m.arrival.messages = _ :=
        (Turn.taken_append (t := ⟨c, m, (c.perform m).1, (c.perform m).2⟩)
          (perform_advance c m).inbox).symm
      calc c.inbox ++ incoming (m :: rest)
        _ = c.inbox ++ m.arrival.messages ++ incoming rest := by simp [incoming]
        _ = Turn.taken ⟨c, m, (c.perform m).1, (c.perform m).2⟩
              ++ ((c.perform m).2.inbox ++ incoming rest) := by rw [hqueue, List.append_assoc]
        _ = (turns c (m :: rest)).flatMap Turn.taken ++ (c.afterMoves (m :: rest)).inbox := by
              rw [ih, ← List.append_assoc]
              rfl

/-- A run in which everything can be written writes what its turns write, in their order. -/
theorem written_afterMoves (moves : List Move) : ∀ {c : Client},
    (∀ t ∈ turns c moves, t.Replies) →
      (c.afterMoves moves).written
        = c.written ++ (turns c moves).flatMap fun t => t.calls ++ t.answers := by
  induction moves with
  | nil => intro c _; exact (List.append_nil _).symm
  | cons m rest ih =>
      intro c h
      rw [turns] at h
      obtain ⟨hm, hrest⟩ := List.forall_mem_cons.mp h
      rw [afterMoves, ih hrest, hm.written, turns, List.flatMap_cons]
      simp only [List.append_assoc]

/-- **Every request of the other side is answered once.**  In a run from a fresh client in which
everything can be written, the turns take the incoming messages from the front, one after the
other, and what they do not take is unread at the end.  What is written and names a method are the
calls of the operations, in their order.  What is written besides is one empty answer for each
request among the messages taken, in their order.  And within each turn the call comes first, before
anything is taken. -/
theorem requests_answered_once (moves : List Move)
    (hwrites : ∀ t ∈ turns {} moves, t.result ≠ .error (.io .brokenPipe)) :
    incoming moves = (turns {} moves).flatMap Turn.taken ++ (afterMoves {} moves).inbox ∧
    (afterMoves {} moves).written.filter (fun v => !isCall v)
      = (((turns {} moves).flatMap Turn.taken).filter wantsAnswer).map emptyAnswer ∧
    (afterMoves {} moves).written.filter isCall = (turns {} moves).flatMap Turn.calls ∧
    ∀ t ∈ turns {} moves, t.Replies := by
  have hreplies := replies_of_mem_turns moves hwrites
  have hwritten := written_afterMoves moves hreplies
  have hfresh : (afterMoves {} moves).written
      = (turns {} moves).flatMap fun t => t.calls ++ t.answers := hwritten
  refine ⟨?_, ?_, ?_, hreplies⟩
  · exact incoming_eq_taken moves {}
  · rw [hfresh, List.filter_flatMap, List.filter_flatMap, List.map_flatMap]
    simp only [Turn.filter_answers]
    rfl
  · rw [hfresh, List.filter_flatMap]
    simp only [Turn.filter_calls]

/-! ## Runs without a limit -/

theorem begun_writesLeft {c : Client} {m : Move} (h : m.room = none) :
    (c.begun m).writesLeft = none := by
  obtain ⟨op, a, room⟩ := m
  subst h
  cases op <;> rfl

theorem perform_ne_broken {m : Move} (h : m.room = none) (c : Client) :
    (c.perform m).1 ≠ .error (.io .brokenPipe) := by
  intro hbroken
  rcases hrun : c.perform m with ⟨r, d⟩
  rw [hrun] at hbroken
  cases perform_cases hrun with
  | refused hclosed => exact absurd (h.symm.trans hclosed) (by simp)
  | spared => exact absurd hbroken (by simp)
  | @searched _ _ _ _ x _ _ _ _ _ hend hh =>
      have hx : x = .error (.io .brokenPipe) := by
        cases x with
        | ok => exact absurd hbroken (by simp [Except.map])
        | error e => exact congrArg Except.error (Except.error.inj hbroken)
      obtain ⟨_, had⟩ := hh.answered
      have hclosed := hh.closed_of_broken hx hend
      exact absurd ((had.unlimited (begun_writesLeft h)).symm.trans hclosed) (by simp)

theorem writes_of_unlimited (moves : List Move) (hmoves : ∀ m ∈ moves, m.room = none) :
    ∀ c : Client, ∀ t ∈ turns c moves, t.result ≠ .error (.io .brokenPipe) := by
  induction moves with
  | nil => intro c t ht; exact absurd ht List.not_mem_nil
  | cons m rest ih =>
      intro c t ht
      obtain ⟨hm, hrest⟩ := List.forall_mem_cons.mp hmoves
      rcases List.mem_cons.mp ht with rfl | ht
      · exact perform_ne_broken hm c
      · exact ih hrest _ t ht

/-- A run in which a request, a wait and the forgetting each meet a request of the other side, the
last under no name at all; a further one is unread when the run ends. -/
def crowded : List Move :=
  let ask (id : Json) : Json :=
    .obj [("id", id), ("jsonrpc", .str "2.0"), ("method", .str "workspace/configuration")]
  let response : Json := .obj [("id", .int 1), ("jsonrpc", .str "2.0"), ("result", .null)]
  let done : Json :=
    .obj [("jsonrpc", .str "2.0"), ("method", .str "done"), ("params", .null)]
  [{ operation := .request "open" .null 5, arrival := { messages := [ask (.int 7), response] } },
   { operation := .wait "done" (fun _ => true)
     arrival := { messages := [ask (.str "a"), done, ask .null] } },
   { operation := .forget "done" fun _ => true },
   { operation := .notify "close" .null, arrival := { messages := [ask (.int 8)] } }]

theorem requests_answered_once_crowded :
    (∀ t ∈ turns {} crowded, t.result ≠ .error (.io .brokenPipe)) ∧
    (((turns {} crowded).flatMap Turn.taken).filter wantsAnswer).map emptyAnswer
      = [nullAnswer (.number 7), nullAnswer (.text "a"), nullAnswer .null] ∧
    (afterMoves {} crowded).written.filter (fun v => !isCall v)
      = (((turns {} crowded).flatMap Turn.taken).filter wantsAnswer).map emptyAnswer ∧
    ∀ t ∈ turns {} crowded, t.Replies := by
  have hwrites := writes_of_unlimited crowded (by simp [crowded]) {}
  obtain ⟨-, hanswers, -, hreplies⟩ := requests_answered_once crowded hwrites
  exact ⟨hwrites, rfl, hanswers, hreplies⟩

end Client

end CompletionCheck.Lsp
