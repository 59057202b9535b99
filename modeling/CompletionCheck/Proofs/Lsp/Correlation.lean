import CompletionCheck.Proofs.Lsp.ClientRun

/-!
# Requests and their responses

Over any run of a client, against any incoming stream: the `n`-th request goes out under the number
`n`, no number goes out twice, and when a request gives an answer, this is what the first response
with its number says among the messages that were not taken before, all messages in front of it
being sensible.  Every other response that a turn takes in leaves no trace: without it the turn
would have gone the same way and left the same client.

That is `responses_correlate`.  `Turn.Correlated` lists what it says about a single turn.
-/

namespace CompletionCheck.Lsp.Client

open Service (Outcome)

/-! ## What an inbox has to do with a search -/

section Leave

variable {α : Type} {keeping : Bool} {pick : Message → Option α}
  {atEnd : Bool → Except ServiceError α}

theorem write_leave (c : Client) (v : Json) (inbox : List Json) :
    (c.leave inbox).write v = ((c.write v).1, (c.write v).2.leave inbox) := by
  rcases c with ⟨nextId, kept, unread, ended, writesLeft, written⟩
  rcases writesLeft with _ | _ | n <;> rfl

theorem pass_leave (c : Client) (msg : Message) (inbox : List Json) :
    (c.leave inbox).pass keeping msg
      = ((c.pass keeping msg).1, (c.pass keeping msg).2.leave inbox) := by
  cases msg with
  | response id result => rfl
  | notification n => cases keeping <;> rfl
  | request id method params => exact write_leave c (nullAnswer id) inbox

theorem search_leave (ms inbox : List Json) : ∀ c : Client,
    search keeping pick atEnd ms (c.leave inbox) = search keeping pick atEnd ms c := by
  induction ms with
  | nil => intro c; rfl
  | cons m rest ih =>
      intro c
      rw [search, search]
      cases Message.ofJson? m with
      | none => rfl
      | some msg =>
          cases hp : pick msg with
          | some a => simp only [hp]; rfl
          | none =>
              simp only [hp, pass_leave]
              rcases c.pass keeping msg with ⟨_ | _, d⟩
              · rfl
              · exact ih d

end Leave

theorem request_eq_search {c : Client} (h : c.writesLeft ≠ some 0) (method : String)
    (params : Json) (limit : Nat) (unread : List Json) :
    (c.leave unread).request method params limit {}
      = search true (pickResponse c.nextId)
          (noResponse method limit) unread
          (c.asked method params) := by
  unfold request
  rcases hs : (c.leave unread).send method params with ⟨r, d⟩
  obtain ⟨rfl, -, rfl⟩ | ⟨-, hclosed, -⟩ := send_cases hs
  · rw [← search_leave _ unread]
    simp only [deliver_nothing, awaitResponse, findResponse_eq_search]
    rfl
  · exact absurd hclosed h

theorem wait_eq_search {c : Client} {method : String} {accept : Json → Bool}
    (h : c.takeKept? method accept = none) (unread : List Json) :
    (c.leave unread).wait method accept {}
      = search false (pickNotification method accept)
          noNotification unread c := by
  have hk : (c.leave unread).takeKept? method accept = none := by
    simpa [takeKept?, leave] using h
  rw [← search_leave _ unread, wait, hk]
  simp only [deliver_nothing, findNotification_eq_search]
  rfl

theorem forget_eq_search (c : Client) (method : String) (discard : Json → Bool)
    (unread : List Json) :
    (c.leave unread).forget method discard
      = match search true (fun _ => none) (fun _ => .ok ()) unread c with
        | (.error e, d) => (.error e, d)
        | (.ok (), d) =>
          (.ok (), { d with kept := d.kept.filter fun n => !fits method discard n }) := by
  rw [← search_leave _ unread, forget, drain_eq_search]
  rfl

/-! ## Responses that belong to nobody -/

/-- An operation either leaves its inbox alone or is a search through it, with nothing done
afterwards that touches the inbox, and picks no response but its own. -/
theorem run_form (c : Client) (op : Operation) :
    (op.run c).2.inbox = c.inbox ∨
      ∃ (β : Type) (keeping : Bool) (pick : Message → Option β)
        (atEnd : Bool → Except ServiceError β) (start : Client)
        (finish : Outcome Client β → Outcome Client Yield),
        (∀ o, (finish o).2.inbox = o.2.inbox) ∧
        (∀ rid result, (op.isRequest = true → rid ≠ .number c.nextId) →
          pick (.response rid result) = none) ∧
        ∀ unread, op.run (c.leave unread) = finish (search keeping pick atEnd unread start) := by
  cases op with
  | request method params limit =>
      by_cases hw : c.writesLeft = some 0
      · refine Or.inl ?_
        rcases h : c.request method params limit {} with ⟨r, d⟩
        obtain ⟨ho, -⟩ | ⟨-, -, rfl⟩ := request_cases h
        · exact absurd hw ho
        · simp only [Operation.run, Operation.gives, h]
          rfl
      · refine Or.inr ⟨_, true, pickResponse c.nextId, noResponse method limit,
          c.asked method params, Operation.gives .answer, fun _ => rfl, ?_, fun unread => ?_⟩
        · intro rid result hstray
          simp [pickResponse, hstray rfl]
        · rw [Operation.run, request_eq_search hw]
  | notify method params =>
      refine Or.inl ?_
      rcases h : c.notify method params with ⟨r, d⟩
      simp only [Operation.run, Operation.gives, h]
      obtain ⟨-, -, rfl⟩ | ⟨-, -, rfl⟩ := write_cases h <;> rfl
  | wait method accept =>
      cases hk : c.takeKept? method accept with
      | some found =>
          obtain ⟨kept, hkept⟩ := takeKept?_frame hk
          simp [Operation.run, Operation.gives, wait, hk, hkept, deliver]
      | none =>
          refine Or.inr ⟨_, false, pickNotification method accept, noNotification, c,
            Operation.gives .notification, fun _ => rfl, fun _ _ _ => rfl, fun unread => ?_⟩
          rw [Operation.run, wait_eq_search hk]
  | forget method discard =>
      refine Or.inr ⟨Unit, true, fun _ => none, fun _ => .ok (), c,
        fun o => Operation.gives (fun _ => .done) (match o with
          | (.error e, d) => (.error e, d)
          | (.ok (), d) =>
            (.ok (), { d with kept := d.kept.filter fun n => !fits method discard n })),
        fun o => ?_, fun _ _ _ => rfl, fun unread => ?_⟩
      · rcases o with ⟨_ | _, d⟩ <;> rfl
      · rw [Operation.run, forget_eq_search]

/-- An operation that takes in a response which is not its own would have done the same without
it. -/
theorem run_without_response {c : Client} {op : Operation} {m : Json} {rid : Id}
    {result : Except RpcError Json} {pre post : List Json} (hq : c.inbox = pre ++ m :: post)
    (hm : Message.ofJson? m = some (.response rid result))
    (hstray : op.isRequest = true → rid ≠ .number c.nextId)
    (htaken : (op.run c).2.inbox <:+ post) :
    op.run (c.leave (pre ++ post)) = op.run c := by
  have hc : op.run c = op.run (c.leave (pre ++ m :: post)) := by rw [← hq]; rfl
  -- what is left cannot be longer than what stands behind the response
  have hshort : ¬ (m :: post) <:+ (op.run c).2.inbox := by
    intro h
    have hle := (h.trans htaken).length_le
    rw [List.length_cons] at hle
    omega
  obtain hidle | ⟨β, keeping, pick, atEnd, start, finish, hfinish, hpick, hrun⟩ := run_form c op
  · refine absurd ?_ hshort
    rw [hidle, hq]
    exact List.suffix_append pre _
  · rw [hc, hrun] at hshort ⊢
    rw [hrun]
    rcases search_without hm (hpick rid result hstray) (fun _ => rfl) post pre start with h | h
    · rw [hfinish] at hshort
      exact absurd h hshort
    · rw [h]

/-! ## Answers -/

/-- An operation that gives an answer is a request, and the answer is what the first response with
its number says. -/
theorem run_answer {c : Client} {op : Operation} {result : Except RpcError Json}
    (h : (op.run c).1 = .ok (.answer result)) :
    op.isRequest = true ∧ ∃ passed m,
      c.inbox = passed ++ m :: (op.run c).2.inbox ∧
      Message.ofJson? m = some (.response (.number c.nextId) result) ∧
      ∀ x ∈ passed, ∃ msg, Message.ofJson? x = some msg ∧
        ∀ other, msg ≠ .response (.number c.nextId) other := by
  cases op with
  | request method params limit =>
      rcases hr : c.request method params limit {} with ⟨r, d⟩
      simp only [Operation.run, Operation.gives, hr] at h ⊢
      obtain ⟨-, hh⟩ | ⟨rfl, -, -⟩ := request_cases hr
      · rw [List.append_nil] at hh
        generalize hq : c.inbox = ms at hh
        cases hh with
        | exhausted hp => exact absurd h (by simp [noResponse, Except.map])
        | undecodable hp hm => exact absurd h (by simp [Except.map])
        | unanswered hp hm hn hw => exact absurd h (by simp [Except.map])
        | @picked passed rest m msg a e hp hm ha =>
            obtain rfl : a = result := by simpa [Except.map] using h
            obtain rfl := pickResponse_eq_some ha
            refine ⟨rfl, passed, m, rfl, hm, fun x hx => ?_⟩
            obtain ⟨other, hx, hnone⟩ := hp.not_picked x hx
            exact ⟨other, hx, ne_of_pickResponse_eq_none hnone⟩
      · exact absurd h (by simp [Except.map])
  | notify method params =>
      refine absurd h ?_
      simp only [Operation.run, Operation.gives]
      cases (c.notify method params).1 <;> simp [Except.map]
  | wait method accept =>
      refine absurd h ?_
      simp only [Operation.run, Operation.gives]
      cases (c.wait method accept {}).1 <;> simp [Except.map]
  | forget method discard =>
      refine absurd h ?_
      simp only [Operation.run, Operation.gives]
      cases (c.forget method discard).1 <;> simp [Except.map]

/-! ## Numbers -/

/-- The numbers under which a client has asked so far. -/
def NumberedUpTo (c : Client) : Prop :=
  ∃ ns : List Nat, c.written.filterMap callId? = ns.map (fun n => .int n) ∧
    ns.Pairwise (· < ·) ∧ ∀ n ∈ ns, n < c.nextId

theorem filterMap_callId?_answersTo (ms : List Json) : (answersTo ms).filterMap callId? = [] := by
  refine List.filterMap_eq_nil_iff.mpr fun v hv => ?_
  obtain ⟨id, rfl⟩ := eq_nullAnswer_of_mem_answersTo hv
  exact callId?_nullAnswer id

theorem NumberedUpTo.perform {c : Client} (h : c.NumberedUpTo) (m : Move) :
    (c.perform m).2.NumberedUpTo := by
  obtain ⟨ns, hns, hlt, hmax⟩ := h
  have had := perform_advance c m
  have hle : c.nextId ≤ (c.perform m).2.nextId := by rw [had.nextId]; omega
  obtain ⟨-, hw⟩ | ⟨passed, hw⟩ := had.written
  · exact ⟨ns, by rw [hw, hns], hlt, fun n hn => Nat.lt_of_lt_of_le (hmax n hn) hle⟩
  · cases hop : m.operation with
    | request method params limit =>
        refine ⟨ns ++ [c.nextId], ?_, ?_, ?_⟩
        · simp [hw, hns, hop, Operation.calls, filterMap_callId?_answersTo]
        · refine List.pairwise_append.mpr ⟨hlt, List.pairwise_singleton _ _, ?_⟩
          intro a ha b hb
          rw [List.mem_singleton.mp hb]
          exact hmax a ha
        · intro n hn
          rw [had.nextId, hop]
          rcases List.mem_append.mp hn with hn | hn
          · exact Nat.lt_succ_of_lt (hmax n hn)
          · rw [List.mem_singleton.mp hn]
            exact Nat.lt_succ_self _
    | notify | wait | forget =>
        refine ⟨ns, ?_, hlt, fun n hn => Nat.lt_of_lt_of_le (hmax n hn) hle⟩
        simp [hw, hns, hop, Operation.calls, filterMap_callId?_answersTo]

theorem NumberedUpTo.of_mem_turns (moves : List Move) {c : Client} (h : c.NumberedUpTo) :
    ∀ t ∈ turns c moves, t.after.NumberedUpTo :=
  fun t ht => (invariant_of_turns (fun _ m hc => hc.perform m) moves h t ht).2

/-! ## Every turn of every run -/

/-- What a turn does when the next request has the number `n`. -/
structure Turn.Correlated (n : Nat) (t : Turn) : Prop where
  /-- A request goes out once, under its number, or it cannot be written at all. -/
  numbered : ∀ method params limit, t.move.operation = .request method params limit →
    (∃ answers, t.after.written = t.before.written ++ requestValue n method params :: answers ∧
        ∀ v ∈ answers, callId? v = none) ∨
      (t.result = .error (.io .brokenPipe) ∧ t.after.written = t.before.written)
  /-- Nothing else goes out under a number. -/
  unnumbered : t.isRequest = false →
    ∃ added, t.after.written = t.before.written ++ added ∧ ∀ v ∈ added, callId? v = none
  /-- An answer is what the last message taken says, and this is the first response with the
  number. -/
  answered : ∀ result, t.result = .ok (.answer result) →
    t.isRequest = true ∧ ∃ passed m, t.taken = passed ++ [m] ∧
      Message.ofJson? m = some (.response (.number n) result) ∧
      ∀ x ∈ passed, ∃ msg, Message.ofJson? x = some msg ∧
        ∀ other, msg ≠ .response (.number n) other
  /-- A response that is taken and does not have the number might as well not have come. -/
  strays : ∀ pre m post rid result, t.queue = pre ++ m :: post → t.after.inbox <:+ post →
    Message.ofJson? m = some (.response rid result) → (t.isRequest = true → rid ≠ .number n) →
    (t.before.leave (pre ++ post)).perform { t.move with arrival := ⟨[], t.move.arrival.ended⟩ }
      = (t.result, t.after)

theorem ready_leave (c : Client) (m : Move) (unread : List Json) :
    (c.leave unread).ready { m with arrival := ⟨[], m.arrival.ended⟩ }
      = (c.ready m).leave unread := by
  simp [ready, leave, deliver]

theorem correlated_of_perform {n : Nat} {t : Turn} (hn : t.before.nextId = n)
    (h : t.before.perform t.move = (t.result, t.after)) : t.Correlated n := by
  have had := perform_advance t.before t.move
  rw [h] at had
  have hrun : t.move.operation.run (t.before.ready t.move) = (t.result, t.after) := h
  have hid : (t.before.ready t.move).nextId = n := hn
  refine ⟨fun method params limit hop => ?_, fun hop => ?_, fun result hr => ?_,
    fun pre m post rid result hq htaken hm hstray => ?_⟩
  · obtain ⟨hr, hw⟩ | ⟨passed, hw⟩ := had.written
    · exact Or.inr ⟨hr, hw⟩
    · refine Or.inl ⟨answersTo passed, ?_, fun v hv => ?_⟩
      · rw [hw, hop, hn]
        simp [Operation.calls]
      · obtain ⟨id, rfl⟩ := eq_nullAnswer_of_mem_answersTo hv
        exact callId?_nullAnswer id
  · obtain ⟨-, hw⟩ | ⟨passed, hw⟩ := had.written
    · exact ⟨[], by rw [hw, List.append_nil], fun v hv => absurd hv List.not_mem_nil⟩
    · refine ⟨_, by rw [hw, List.append_assoc], fun v hv => ?_⟩
      rcases List.mem_append.mp hv with hv | hv
      · rw [Turn.isRequest] at hop
        cases hcall : t.move.operation with
        | request method params limit => exact absurd hop (by simp [hcall, Operation.isRequest])
        | notify method params =>
            rw [hcall] at hv
            rw [List.mem_singleton.mp hv]
            exact callId?_notificationValue method params
        | wait | forget => rw [hcall] at hv; exact absurd hv List.not_mem_nil
      · obtain ⟨id, rfl⟩ := eq_nullAnswer_of_mem_answersTo hv
        exact callId?_nullAnswer id
  · have hans : (t.move.operation.run (t.before.ready t.move)).1 = .ok (.answer result) := by
      rw [hrun]; exact hr
    obtain ⟨hreq, passed, m, hq, hm, hp⟩ := run_answer hans
    rw [hid] at hm hp
    rw [hrun] at hq
    refine ⟨hreq, passed, m, ?_, hm, hp⟩
    have htaken : t.taken ++ t.after.inbox = (passed ++ [m]) ++ t.after.inbox := by
      rw [Turn.taken_append had.inbox, List.append_assoc]
      exact hq
    exact List.append_cancel_right htaken
  · have hwithout := run_without_response (c := t.before.ready t.move) hq hm
      (by rw [hid]; exact hstray) (by rw [hrun]; exact htaken)
    rw [perform, ready_leave, hwithout, hrun]

/-- **Requests and responses correlate.**  At every turn of every run from a fresh client, with
`earlier` the turns before it: the turn is right for the next number, no number has gone out twice,
and the incoming stream is what was taken before, what this turn takes, and the rest. -/
theorem responses_correlate (moves : List Move) (earlier later : List Turn) (t : Turn)
    (h : turns {} moves = earlier ++ t :: later) :
    t.Correlated (earlier.countP Turn.isRequest + 1) ∧ t.after.NumberedUpTo ∧
      incoming moves = earlier.flatMap Turn.taken ++ t.taken ++ t.after.inbox
        ++ incoming (later.map Turn.move) := by
  obtain ⟨hperform, hnext, hstream⟩ := turn_of_turns moves h
  have hmem : t ∈ turns {} moves := by rw [h]; simp
  have had := perform_advance t.before t.move
  rw [hperform] at had
  refine ⟨correlated_of_perform (by rw [hnext]; exact Nat.add_comm _ _) hperform, ?_, ?_⟩
  · exact NumberedUpTo.of_mem_turns moves ⟨[], rfl, .nil, by simp⟩ t hmem
  · rw [List.append_assoc (earlier.flatMap _), Turn.taken_append had.inbox]
    simpa using hstream

/-- A request that runs out of time, and one that meets the response to the first, a response to
a text, and its own. -/
def overtaken : List Move :=
  let response (id : Json) (result : String) : Json :=
    .obj [("jsonrpc", .str "2.0"), ("id", id), ("result", .str result)]
  [{ operation := .request "first" .null 5 },
   { operation := .request "second" .null 5
     arrival := { messages :=
       [response (.int 1) "late", response (.str "2") "text", response (.int 2) "own"] } }]

theorem responses_correlate_overtaken : ∃ first second,
    turns {} overtaken = [first] ++ second :: [] ∧
      first.result = .error (.timeout "first" 5) ∧
      second.result = .ok (.answer (.ok (.str "own"))) ∧
      second.Correlated ([first].countP Turn.isRequest + 1) := by
  refine ⟨_, _, rfl, rfl, rfl, ?_⟩
  exact (responses_correlate overtaken [_] [] _ rfl).1

end CompletionCheck.Lsp.Client
