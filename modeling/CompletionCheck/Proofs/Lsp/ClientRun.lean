import CompletionCheck.Proofs.Lsp.Operations

/-!
# Runs of a client

A run is a list of moves.  A move is an operation together with what the other side does about it:
which messages arrive until the operation ends, whether the incoming stream ends with them, and how
many messages the other side takes.  All of it is free from move to move, so a run may meet any
stream of messages, cut anywhere, and may fail to write at any place.

What arrives until an operation ends is put into the inbox before it begins.  An operation looks
at its inbox only after it has written, so this is no restriction; `request_deliver` and
`wait_deliver` say so.

Whatever the operation, a move either cannot write its own message, or has nothing to look for, or
goes through what is unread.  `Performs` lists these three exits, and the facts about a single move
are read off it.
-/

namespace CompletionCheck.Lsp.Client

open Service (Outcome)

/-- What a client can be asked to do.  Only three of the operations look at messages: a request
waits for its response, a wait looks for a notification, and forgetting drops the notifications
that have arrived. -/
inductive Operation
  | request (method : String) (params : Json) (limit : Nat)
  | notify (method : String) (params : Json)
  | wait (method : String) (accept : Json → Bool)
  | forget (method : String) (discard : Json → Bool)

inductive Yield
  | answer (result : Except RpcError Json)
  | notification (params : Option Json)
  | done

/-- An operation and what the other side does about it. -/
structure Move where
  operation : Operation
  /-- What arrives until the operation ends. -/
  arrival : Arrival := {}
  /-- How many messages can be written, when there is a limit. -/
  room : Option Nat := none

namespace Operation

def isRequest : Operation → Bool
  | .request .. => true
  | _ => false

/-- Gives the result of an operation its place in `Yield`. -/
def gives {β : Type} (f : β → Yield) (o : Outcome Client β) : Outcome Client Yield :=
  (o.1.map f, o.2)

def run (c : Client) : Operation → Outcome Client Yield
  | .request method params limit => gives .answer (c.request method params limit {})
  | .notify method params => gives (fun _ => .done) (c.notify method params)
  | .wait method accept => gives .notification (c.wait method accept {})
  | .forget method discard => gives (fun _ => .done) (c.forget method discard)

end Operation

/-- The client for which a move begins. -/
def ready (c : Client) (m : Move) : Client :=
  { c.deliver m.arrival with writesLeft := m.room }

def perform (c : Client) (m : Move) : Outcome Client Yield :=
  m.operation.run (c.ready m)

/-- A move that was made: the client before it, what it gave, and the client after it. -/
structure Turn where
  before : Client
  move : Move
  result : Except ServiceError Yield
  after : Client

/-- The moves of a run, as they are made one after the other. -/
def turns : Client → List Move → List Turn
  | _, [] => []
  | c, m :: rest => ⟨c, m, (c.perform m).1, (c.perform m).2⟩ :: turns (c.perform m).2 rest

def afterMoves : Client → List Move → Client
  | c, [] => c
  | c, m :: rest => afterMoves (c.perform m).2 rest

namespace Turn

def isRequest (t : Turn) : Bool := t.move.operation.isRequest

/-- The messages that a turn finds unread or that arrive in it. -/
def queue (t : Turn) : List Json := t.before.inbox ++ t.move.arrival.messages

/-- The messages that a turn takes out of its inbox. -/
def taken (t : Turn) : List Json := t.queue.take (t.queue.length - t.after.inbox.length)

end Turn

/-- The messages that arrive during moves. -/
def incoming (moves : List Move) : List Json :=
  moves.flatMap fun m => m.arrival.messages

/-! ## When messages arrive -/

theorem request_deliver {c : Client} (h : c.writesLeft ≠ some 0) (method : String) (params : Json)
    (limit : Nat) (a : Arrival) :
    (c.deliver a).request method params limit {} = c.request method params limit a := by
  rcases c with ⟨nextId, kept, inbox, ended, writesLeft, written⟩
  cases writesLeft with
  | none => simp [request, send, write, deliver]
  | some n =>
      cases n with
      | zero => exact absurd rfl h
      | succ n => simp [request, send, write, deliver]

theorem wait_deliver (c : Client) (method : String) (accept : Json → Bool) (a : Arrival) :
    (c.deliver a).wait method accept {} = c.wait method accept a := by
  have hk : (c.deliver a).takeKept? method accept
      = (c.takeKept? method accept).map fun (params, d) => (params, d.deliver a) := by
    simp only [takeKept?, deliver, Option.map_map]
    rfl
  rw [wait, wait, hk]
  cases c.takeKept? method accept with
  | some found => simp [deliver]
  | none => simp [deliver]

/-! ## One turn -/

/-- What an operation writes of its own when the next request has the number `n`. -/
def Operation.calls (n : Nat) : Operation → List Json
  | .request method params _ => [requestValue n method params]
  | .notify method params => [notificationValue method params]
  | .wait .. | .forget .. => []

/-- The client that a move finds, with a request counted when the move makes one. -/
def counted (c : Client) (m : Move) : Client :=
  { c.ready m with nextId := c.nextId + if m.operation.isRequest then 1 else 0 }

/-- The client that has written what a move says of its own, and has not looked at anything. -/
def begun (c : Client) (m : Move) : Client :=
  (m.operation.calls c.nextId).foldl wrote (c.counted m)

theorem begun_nextId (c : Client) (m : Move) :
    (c.begun m).nextId = c.nextId + if m.operation.isRequest then 1 else 0 := by
  obtain ⟨op, a, room⟩ := m
  cases op <;> rfl

theorem begun_inbox (c : Client) (m : Move) :
    (c.begun m).inbox = c.inbox ++ m.arrival.messages := by
  obtain ⟨op, a, room⟩ := m
  cases op <;> rfl

theorem begun_written (c : Client) (m : Move) :
    (c.begun m).written = c.written ++ m.operation.calls c.nextId := by
  obtain ⟨op, a, room⟩ := m
  cases op with
  | request | notify => rfl
  | wait | forget => exact (List.append_nil _).symm

theorem begun_ended (c : Client) (m : Move) :
    (c.begun m).ended = (c.ended || m.arrival.ended) := by
  obtain ⟨op, a, room⟩ := m
  cases op <;> rfl

theorem begun_kept (c : Client) (m : Move) : (c.begun m).kept = c.kept := by
  obtain ⟨op, a, room⟩ := m
  cases op <;> rfl

/-- The exits of a move, whichever of the four operations it makes.  Of the notifications kept it
says no more than where they come from. -/
inductive Performs (c : Client) (m : Move) : Except ServiceError Yield → Client → Prop
  /-- Its own message cannot be written. -/
  | refused : m.room = some 0 → m.operation.calls c.nextId ≠ [] →
      Performs c m (.error (.io .brokenPipe)) (c.counted m)
  /-- It has nothing to look for among what is unread. -/
  | spared {y : Yield} {kept : List Notification} :
      (m.room = some 0 → m.operation.calls c.nextId = []) → kept ⊆ c.kept →
      Performs c m (.ok y) { c.begun m with kept }
  /-- It goes through what is unread. -/
  | searched {β : Type} {keeping : Bool} {pick : Message → Option β}
      {atEnd : Bool → Except ServiceError β} {x : Except ServiceError β} {e : Client}
      {kept : List Notification} {give : β → Yield} :
      (m.room = some 0 → m.operation.calls c.nextId = []) →
      (∀ id method params, pick (.request id method params) = none) →
      (∀ ended, atEnd ended ≠ .error (.io .brokenPipe)) →
      Halts keeping pick atEnd (c.begun m) (c.inbox ++ m.arrival.messages) x e →
      kept ⊆ e.kept → Performs c m (x.map give) { e with kept }

theorem perform_cases {c d : Client} {m : Move} {r : Except ServiceError Yield}
    (hrun : c.perform m = (r, d)) : Performs c m r d := by
  obtain ⟨rfl, rfl⟩ : (c.perform m).1 = r ∧ (c.perform m).2 = d := by
    rw [hrun]
    exact ⟨rfl, rfl⟩
  clear hrun
  obtain ⟨op, a, room⟩ := m
  cases op with
  | request method params limit =>
      rcases h : (c.ready ⟨.request method params limit, a, room⟩).request method params limit {}
        with ⟨r, d⟩
      simp only [perform, Operation.run, Operation.gives, h]
      obtain ⟨hopen, hh⟩ | ⟨rfl, hclosed, rfl⟩ := request_cases h
      · rw [deliver_nothing, List.append_nil] at hh
        refine .searched (fun hroom => absurd hroom hopen) (fun _ _ _ => rfl) (fun ended => ?_) hh
          (List.Subset.refl _)
        cases ended <;> simp [noResponse]
      · exact .refused hclosed (List.cons_ne_nil _ _)
  | notify method params =>
      rcases h : (c.ready ⟨.notify method params, a, room⟩).notify method params with ⟨r, d⟩
      simp only [perform, Operation.run, Operation.gives, h]
      obtain ⟨rfl, hopen, rfl⟩ | ⟨rfl, hclosed, rfl⟩ := write_cases h
      · exact .spared (fun hroom => absurd hroom hopen) (List.Subset.refl c.kept)
      · exact .refused hclosed (List.cons_ne_nil _ _)
  | wait method accept =>
      rcases h : (c.ready ⟨.wait method accept, a, room⟩).wait method accept {} with ⟨r, d⟩
      simp only [perform, Operation.run, Operation.gives, h]
      obtain ⟨_, e, hk, rfl, rfl⟩ | ⟨-, hh⟩ := wait_cases h
      · obtain ⟨⟨n, left⟩, hf, he⟩ := Option.map_eq_some_iff.mp hk
        cases he
        rw [deliver_nothing]
        exact .spared (fun _ => rfl) (takeFirst?_mem _ hf).2.2
      · rw [deliver_nothing, List.append_nil] at hh
        refine .searched (fun _ => rfl) (fun _ _ _ => rfl) (fun ended => ?_) hh
          (List.Subset.refl _)
        cases ended <;> simp [noNotification]
  | forget method discard =>
      rcases h : (c.ready ⟨.forget method discard, a, room⟩).forget method discard with ⟨r, d⟩
      simp only [perform, Operation.run, Operation.gives, h]
      obtain ⟨e, hh, hd⟩ := forget_cases h
      obtain ⟨_, -, rfl⟩ | ⟨-, rfl⟩ := hd
      · exact .searched (fun _ => rfl) (fun _ _ _ => rfl) (by simp) hh (List.Subset.refl _)
      · exact .searched (fun _ => rfl) (fun _ _ _ => rfl) (by simp) hh
          List.filter_sublist.subset

/-- What every move does, whatever its operation: it uses a number up for a request, it takes
messages from the front of the inbox, and it writes its own call, if it has one, and then empty
answers.  A move that leaves no call behind could not write it. -/
structure Advance (c : Client) (m : Move) (r : Except ServiceError Yield) (d : Client) : Prop where
  nextId : d.nextId = c.nextId + if m.operation.isRequest then 1 else 0
  inbox : d.inbox <:+ c.inbox ++ m.arrival.messages
  written : (r = .error (.io .brokenPipe) ∧ d.written = c.written) ∨
    ∃ passed, d.written = c.written ++ m.operation.calls c.nextId ++ answersTo passed

theorem perform_advance (c : Client) (m : Move) :
    Advance c m (c.perform m).1 (c.perform m).2 := by
  rcases hrun : c.perform m with ⟨r, d⟩
  cases perform_cases hrun with
  | refused => exact ⟨rfl, List.suffix_rfl, Or.inl ⟨rfl, rfl⟩⟩
  | spared =>
      refine ⟨begun_nextId c m, ?_, Or.inr ⟨[], ?_⟩⟩
      · exact (begun_inbox c m).symm ▸ List.suffix_rfl
      · rw [begun_written]
        exact (List.append_nil _).symm
  | searched _ _ _ hh =>
      obtain ⟨passed, taken, -, hq, had⟩ := hh.split
      refine ⟨had.nextId.trans (begun_nextId c m), ⟨taken, hq.symm⟩, Or.inr ⟨passed, ?_⟩⟩
      rw [had.written, begun_written]

/-- A move that could write everything it had to has answered every request that it has taken. -/
theorem written_perform {c : Client} {m : Move}
    (h : (c.perform m).1 ≠ .error (.io .brokenPipe)) :
    ∃ taken, c.inbox ++ m.arrival.messages = taken ++ (c.perform m).2.inbox ∧
      (c.perform m).2.written = c.written ++ m.operation.calls c.nextId ++ answersTo taken := by
  rcases hrun : c.perform m with ⟨r, d⟩
  rw [hrun] at h
  cases perform_cases hrun with
  | refused => exact absurd rfl h
  | spared =>
      refine ⟨[], ?_, ?_⟩
      · rw [begun_inbox]
        rfl
      · rw [begun_written]
        exact (List.append_nil _).symm
  | @searched _ _ _ _ x _ _ _ _ hcalm _ hh =>
      have hx : x ≠ .error (.io .brokenPipe) := by
        rintro rfl
        exact h rfl
      obtain ⟨taken, hq, had⟩ := hh.answers_taken hcalm hx
      refine ⟨taken, hq, ?_⟩
      rw [had.written, begun_written]

/-! ## The turns of a run -/

theorem Turn.taken_eq {t : Turn} {taken : List Json} (h : t.queue = taken ++ t.after.inbox) :
    t.taken = taken := by
  rw [Turn.taken, h]
  simp

theorem Turn.taken_append {t : Turn} (h : t.after.inbox <:+ t.queue) :
    t.taken ++ t.after.inbox = t.queue := by
  obtain ⟨taken, hq⟩ := h
  rw [Turn.taken_eq hq.symm, hq]

/-- What every move keeps holds throughout a run. -/
theorem invariant_of_turns {I : Client → Prop} (hstep : ∀ c m, I c → I (c.perform m).2)
    (moves : List Move) : ∀ {c : Client}, I c → ∀ t ∈ turns c moves, I t.before ∧ I t.after := by
  induction moves with
  | nil => exact fun _ _ ht => absurd ht List.not_mem_nil
  | cons m rest ih =>
      intro c h t ht
      rcases List.mem_cons.mp ht with rfl | ht
      · exact ⟨h, hstep c m h⟩
      · exact ih (hstep c m h) t ht

theorem map_move_turns (moves : List Move) : ∀ c : Client,
    (turns c moves).map Turn.move = moves := by
  induction moves with
  | nil => intro c; rfl
  | cons m rest ih => intro c; rw [turns, List.map_cons, ih]

/-- Where a turn stands in its run: what it does follows from the client before it, the number of
the next request counts the requests so far, and the incoming stream is what was taken before,
what is unread, and what arrives from now on. -/
theorem turn_of_turns (moves : List Move) : ∀ {c : Client} {earlier later : List Turn} {t : Turn},
    turns c moves = earlier ++ t :: later →
      t.before.perform t.move = (t.result, t.after) ∧
      t.before.nextId = c.nextId + earlier.countP Turn.isRequest ∧
      c.inbox ++ incoming moves
        = earlier.flatMap Turn.taken ++ t.queue ++ incoming (later.map Turn.move) := by
  induction moves with
  | nil => intro c earlier later t h; exact absurd h (by simp [turns])
  | cons m rest ih =>
      intro c earlier later t h
      rw [turns] at h
      cases earlier with
      | nil =>
          obtain ⟨rfl, rfl⟩ := List.cons.inj h
          refine ⟨rfl, rfl, ?_⟩
          simp [Turn.queue, incoming, map_move_turns]
      | cons e earlier =>
          rw [List.cons_append] at h
          obtain ⟨rfl, htail⟩ := List.cons.inj h
          obtain ⟨hperform, hnext, hstream⟩ := ih htail
          have had := perform_advance c m
          refine ⟨hperform, ?_, ?_⟩
          · rw [hnext, had.nextId, List.countP_cons]
            show _ = c.nextId + (_ + if m.operation.isRequest then 1 else 0)
            omega
          · rw [List.flatMap_cons, List.append_assoc, List.append_assoc, ← List.append_assoc _ t.queue,
              ← hstream, ← List.append_assoc, Turn.taken_append had.inbox]
            simp [Turn.queue, incoming]

end CompletionCheck.Lsp.Client
