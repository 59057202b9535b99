import CompletionCheck.Proofs.Lsp.Keeping

/-!
# What a message that makes no sense costs

A message that cannot be read ends the operation that meets it.  The operation may be in the middle
of things then: requests have been answered, notifications have been kept, and a forgetting has not
dropped anything yet.  `Turn.Spoilt` says what the client is like after it, whichever operation it
was: as if the messages before had been all there was, with those behind still unread.

Nothing else remembers the failure, so the run goes on from that client as any run does.  Each turn
that fails in this way takes one message that makes no sense, and no other turn takes any
(`countP_undecodable_taken`); so there are no more such failures than such messages.  And a request
that comes later has its own number: it passes a response to one that failed, and is answered by its
own.
-/

namespace CompletionCheck.Lsp.Client

open Service (Outcome)

/-- Whether a message makes no sense. -/
def undecodable (m : Json) : Bool :=
  (Message.ofJson? m).isNone

namespace Turn

/-- Whether a turn fails on a message that makes no sense. -/
def garbled (t : Turn) : Bool :=
  match t.result with
  | .error (.protocol .undecodableMessage) => true
  | _ => false

/-- A turn comes to the message `m`: it reads its inbox and has no reason to stop at the messages
`pre` in front of it. -/
structure ComesTo (t : Turn) (pre : List Json) (m : Json) (post : List Json) : Prop where
  reads : t.before.Reads t.move
  queue : t.queue = pre ++ m :: post
  skips : t.Skips pre

/-- What a turn leaves that has failed on a message between `pre` and `post`. -/
structure Spoilt (t : Turn) (pre : List Json) (bad : Json) (post : List Json) : Prop where
  result : t.result = .error (.protocol .undecodableMessage)
  /-- The message is taken, and what stands behind it is not. -/
  taken : t.taken = pre ++ [bad]
  inbox : t.after.inbox = post
  /-- Its own call is written, and every request among the messages before has its answer. -/
  written : t.after.written
    = t.before.written ++ t.move.operation.calls t.before.nextId ++ answersTo pre
  /-- A wait keeps what was kept; the others keep the notifications among the messages before. -/
  kept : t.after.kept = if t.move.operation.keeping
    then (t.before.kept ++ notificationsIn pre).rtake maxKept else t.before.kept
  nextId : t.after.nextId = t.before.nextId + if t.isRequest then 1 else 0
  ended : t.after.ended = (t.before.ended || t.move.arrival.ended)

end Turn

/-! ## One turn -/

section Perform

variable {c d : Client} {m : Move} {t : Turn} {pre post : List Json} {x : Json}

theorem finish_error (op : Operation) (e : ServiceError) (d : Client) :
    op.finish (.error e, d) = (.error e, d) := by
  cases op <;> rfl

theorem spoilt_of_comesTo (hc : t.before.kept.length ≤ maxKept)
    (h : t.before.perform t.move = (t.result, t.after)) (hcomes : t.ComesTo pre x post)
    (hx : Message.ofJson? x = none) : t.Spoilt pre x post := by
  obtain ⟨c, m, r, d⟩ := t
  obtain ⟨hreads, hqueue, hskips⟩ := hcomes
  obtain ⟨e, hp⟩ := hskips.passes m.operation.keeping
  have hqueue : c.inbox ++ m.arrival.messages = pre ++ x :: post := hqueue
  have hh : Halts m.operation.keeping (m.operation.pick c.nextId) m.operation.atEnd (c.begun m)
      (c.inbox ++ m.arrival.messages) (.error (.protocol .undecodableMessage)) (e.leave post) := by
    rw [hqueue]
    exact .undecodable hp hx
  have hrun := (perform_of_halts hreads hh).trans (finish_error _ _ _)
  obtain ⟨rfl, rfl⟩ := Prod.mk.inj (h.symm.trans hrun)
  have had := hp.answered
  refine ⟨rfl, Turn.taken_eq ?_, rfl, ?_, ?_, ?_, ?_⟩
  · rw [List.append_assoc]
    exact hqueue
  · exact had.written.trans (by rw [begun_written])
  · show e.kept = if m.operation.keeping
      then (c.kept ++ notificationsIn pre).rtake maxKept else c.kept
    split
    · next hkeeping =>
        rw [hkeeping] at hp
        rw [hp.kept_eq (by rwa [begun_kept]), begun_kept]
    · next hkeeping =>
        rw [Bool.not_eq_true] at hkeeping
        rw [hkeeping] at hp
        rw [hp.kept_of_dropping, begun_kept]
  · exact had.nextId.trans (begun_nextId c m)
  · exact had.ended.trans (begun_ended c m)

theorem answered_of_comesTo (h : t.before.perform t.move = (t.result, t.after))
    (hreq : t.isRequest = true) (hcomes : t.ComesTo pre x post) {result : Except RpcError Json}
    (hx : Message.ofJson? x = some (.response (.number t.before.nextId) result)) :
    t.result = .ok (.answer result) ∧ t.after.inbox = post := by
  obtain ⟨c, ⟨op, a, room⟩, r, d⟩ := t
  cases op with
  | notify | wait | forget => exact absurd hreq (by simp [Turn.isRequest, Operation.isRequest])
  | request method params limit =>
      obtain ⟨hreads, hqueue, hskips⟩ := hcomes
      obtain ⟨e, hp⟩ := hskips.passes true
      have hpick : (Operation.request method params limit).pick c.nextId
          (.response (.number c.nextId) result) = some (.answer result) := by
        simp [Operation.pick, pickResponse]
      have hh : Halts true ((Operation.request method params limit).pick c.nextId)
          (Operation.request method params limit).atEnd
          (c.begun ⟨.request method params limit, a, room⟩) (c.inbox ++ a.messages)
          (.ok (.answer result)) (e.leave post) := by
        rw [show c.inbox ++ a.messages = pre ++ x :: post from hqueue]
        exact .picked hp hx hpick
      have hrun := perform_of_halts (m := ⟨.request method params limit, a, room⟩) hreads hh
      obtain ⟨rfl, rfl⟩ := Prod.mk.inj (h.symm.trans hrun)
      exact ⟨rfl, rfl⟩

theorem countP_undecodable_passed {α : Type} {keeping : Bool} {pick : Message → Option α}
    {ms : List Json} (h : Passes keeping pick c ms d) : ms.countP undecodable = 0 := by
  rw [List.countP_eq_zero]
  intro m hm
  obtain ⟨msg, hmsg, -⟩ := h.not_picked m hm
  simp [undecodable, hmsg]

/-- A loop fails for a message that makes no sense exactly if it takes one, and it takes only
one. -/
theorem countP_undecodable_halts {α : Type} {keeping : Bool} {pick : Message → Option α}
    {atEnd : Bool → Except ServiceError α} {ms : List Json} {r : Except ServiceError α}
    (h : Halts keeping pick atEnd c ms r d)
    (hend : ∀ ended, atEnd ended ≠ .error (.protocol .undecodableMessage)) :
    ∃ taken, ms = taken ++ d.inbox ∧
      (r = .error (.protocol .undecodableMessage) ∧ taken.countP undecodable = 1 ∨
        r ≠ .error (.protocol .undecodableMessage) ∧ taken.countP undecodable = 0) := by
  have last {passed : List Json} {e : Client} (hp : Passes keeping pick c passed e) (m : Json) :
      (passed ++ [m]).countP undecodable = if undecodable m then 1 else 0 := by
    rw [List.countP_append, countP_undecodable_passed hp, Nat.zero_add, List.countP_singleton]
  cases h with
  | exhausted hp =>
      exact ⟨ms, (List.append_nil _).symm, Or.inr ⟨hend _, countP_undecodable_passed hp⟩⟩
  | @picked passed rest m msg a e hp hm ha =>
      refine ⟨passed ++ [m], by simp [leave], Or.inr ⟨by simp, ?_⟩⟩
      rw [last hp]
      simp [undecodable, hm]
  | @undecodable passed rest m e hp hm =>
      refine ⟨passed ++ [m], by simp [leave], Or.inl ⟨rfl, ?_⟩⟩
      rw [last hp]
      simp [undecodable, hm]
  | @unanswered passed rest m id method params e hp hm =>
      refine ⟨passed ++ [m], by simp [leave], Or.inr ⟨by simp, ?_⟩⟩
      rw [last hp]
      simp [undecodable, hm]

theorem atEnd_ne_undecodable (op : Operation) (ended : Bool) :
    op.atEnd ended ≠ .error (.protocol .undecodableMessage) := by
  cases op <;> cases ended <;>
    simp [Operation.atEnd, noResponse, noNotification, Except.map]

theorem garbled_iff : t.garbled = true ↔ t.result = .error (.protocol .undecodableMessage) := by
  unfold Turn.garbled
  split
  · next h => exact ⟨fun _ => h, fun _ => rfl⟩
  · next h => exact ⟨fun hfalse => absurd hfalse (by simp), fun hr => absurd hr h⟩

theorem countP_undecodable_taken (h : t.before.perform t.move = (t.result, t.after)) :
    t.taken.countP undecodable = if t.garbled then 1 else 0 := by
  obtain ⟨c, m, r, d⟩ := t
  have of_result (taken : List Json) (hqueue : c.inbox ++ m.arrival.messages = taken ++ d.inbox)
      (hcount : r = .error (.protocol .undecodableMessage) ∧ taken.countP undecodable = 1 ∨
        r ≠ .error (.protocol .undecodableMessage) ∧ taken.countP undecodable = 0) :
      (Turn.taken ⟨c, m, r, d⟩).countP undecodable
        = if (⟨c, m, r, d⟩ : Turn).garbled then 1 else 0 := by
    rw [Turn.taken_eq (t := ⟨c, m, r, d⟩) hqueue]
    rcases hcount with ⟨hr, hone⟩ | ⟨hr, hnone⟩
    · rw [hone, if_pos (garbled_iff.mpr hr)]
    · rw [hnone, if_neg fun hg => hr (garbled_iff.mp hg)]
  by_cases hreads : c.Reads m
  · obtain ⟨x, e, hh, hrun⟩ := exists_halts hreads
    obtain ⟨kept, hfinish⟩ := finish_frame m.operation (x, e)
    obtain ⟨hr, hd⟩ := Prod.mk.inj (h.symm.trans (hrun.trans hfinish))
    have hinbox : d.inbox = e.inbox := (congrArg Client.inbox hd).trans rfl
    have hresult : r = x := hr
    obtain ⟨taken, hqueue, hcount⟩ :=
      countP_undecodable_halts hh (atEnd_ne_undecodable m.operation)
    rw [← hinbox] at hqueue
    rw [← hresult] at hcount
    exact of_result taken hqueue hcount
  · obtain ⟨hinbox, hfails, -⟩ := perform_unread hreads
    rw [h] at hinbox hfails
    refine of_result [] hinbox.symm (Or.inr ⟨fun hr => ?_, rfl⟩)
    exact absurd (hfails _ hr) (by simp)

end Perform

/-! ## Runs -/

theorem countP_garbled_turns (moves : List Move) : ∀ c : Client,
    (turns c moves).countP Turn.garbled
      = ((turns c moves).flatMap Turn.taken).countP undecodable := by
  induction moves with
  | nil => intro c; rfl
  | cons m rest ih =>
      intro c
      rw [turns, List.countP_cons, List.flatMap_cons, List.countP_append, ih,
        countP_undecodable_taken rfl, Nat.add_comm]

theorem turns_after (moves : List Move) : ∀ {c : Client} {earlier later : List Turn} {t : Turn},
    turns c moves = earlier ++ t :: later → later = turns t.after (later.map Turn.move) := by
  induction moves with
  | nil => intro c earlier later t h; exact absurd h (by simp [turns])
  | cons m rest ih =>
      intro c earlier later t h
      rw [turns] at h
      cases earlier with
      | nil =>
          obtain ⟨rfl, rfl⟩ := List.cons.inj h
          rw [map_move_turns]
      | cons e earlier =>
          obtain ⟨-, htail⟩ := List.cons.inj h
          exact ih htail

/-- **A message that makes no sense costs one operation.**  In a run from any client that keeps no
more than it may: a turn that comes to such a message fails, and leaves what `Turn.Spoilt` says; the
later turns are the run from there.  As many turns fail so as such messages are taken, and no more
than there are.  And a request that comes to the response with its own number is answered by it,
whatever has failed before. -/
theorem undecodable_costs_one (c : Client) (hc : c.kept.length ≤ maxKept) (moves : List Move)
    (earlier later : List Turn) (t : Turn) (h : turns c moves = earlier ++ t :: later) :
    (∀ pre bad post, t.ComesTo pre bad post → Message.ofJson? bad = none →
        t.Spoilt pre bad post) ∧
      later = turns t.after (later.map Turn.move) ∧
      (turns c moves).countP Turn.garbled
        = ((turns c moves).flatMap Turn.taken).countP undecodable ∧
      (turns c moves).countP Turn.garbled ≤ (c.inbox ++ incoming moves).countP undecodable ∧
      ∀ pre m post result, t.isRequest = true → t.ComesTo pre m post →
        Message.ofJson? m
          = some (.response (.number ↑(c.nextId + earlier.countP Turn.isRequest)) result) →
        t.result = .ok (.answer result) ∧ t.after.inbox = post := by
  obtain ⟨hperform, hnext, -⟩ := turn_of_turns moves h
  have hmem : t ∈ turns c moves := by rw [h]; simp
  have hbefore := (invariant_of_turns (I := fun c => c.kept.length ≤ maxKept)
    (fun _ m hc => perform_kept_le hc m) moves hc t hmem).1
  have hcount := countP_garbled_turns moves c
  refine ⟨fun pre bad post hcomes hbad => spoilt_of_comesTo hbefore hperform hcomes hbad,
    turns_after moves h, hcount, ?_, fun pre m post result hreq hcomes hm => ?_⟩
  · rw [hcount, incoming_eq_taken, List.countP_append]
    exact Nat.le_add_right _ _
  · rw [← hnext] at hm
    exact answered_of_comesTo hperform hreq hcomes hm

/-- A request of the other side as it arrives. -/
def asking (id : Int) : Json :=
  .obj [("id", .int id), ("jsonrpc", .str "2.0"), ("method", .str "workspace/configuration")]

def responding (id : Int) (result : String) : Json :=
  .obj [("id", .int id), ("jsonrpc", .str "2.0"), ("result", .str result)]

/-- A request that fails behind a notification and a request of the other side, a forgetting that
fails at once, and a request that meets the late response to the first. -/
def spoiltTwice : List Move :=
  [{ operation := .request "first" .null 5
     arrival := { messages :=
       [told "a" 1, asking 7, .null, .bool true, responding 1 "late"] } },
   { operation := .forget "a" fun _ => true },
   { operation := .request "second" .null 5, arrival := { messages := [responding 2 "own"] } }]

theorem undecodable_costs_one_twice : ∃ first second third,
    turns {} spoiltTwice = [first, second, third] ∧
      first.Spoilt [told "a" 1, asking 7] .null [.bool true, responding 1 "late"] ∧
      second.Spoilt [] (.bool true) [responding 1 "late"] ∧
      second.after.kept = [⟨"a", some (.int 1)⟩] ∧
      third.ComesTo [responding 1 "late"] (responding 2 "own") [] ∧
      third.result = .ok (.answer (.ok (.str "own"))) ∧
      (turns {} spoiltTwice).countP Turn.garbled ≤ 2 := by
  have hkept : ({} : Client).kept.length ≤ maxKept := Nat.zero_le _
  refine ⟨_, _, _, rfl, ?_, ?_, rfl, ?_⟩
  · refine (undecodable_costs_one {} hkept spoiltTwice [] [_, _] _ rfl).1 _ _ _ ?_ rfl
    refine ⟨(Option.some_ne_none _).symm, rfl, ?_, fun room hroom => nomatch hroom⟩
    exact List.forall_mem_cons.mpr ⟨⟨_, rfl, rfl⟩, List.forall_mem_singleton.mpr ⟨_, rfl, rfl⟩⟩
  · refine (undecodable_costs_one {} hkept spoiltTwice [_] [_] _ rfl).1 _ _ _ ?_ rfl
    exact ⟨trivial, rfl, fun _ hm => absurd hm List.not_mem_nil, fun room hroom => nomatch hroom⟩
  · obtain ⟨-, -, -, hcount, hanswer⟩ :=
      undecodable_costs_one {} hkept spoiltTwice [_, _] [] _ rfl
    suffices hcomes : _ from ⟨hcomes, (hanswer _ _ _ _ rfl hcomes rfl).1, hcount⟩
    refine ⟨(Option.some_ne_none _).symm, rfl, ?_, fun room hroom => nomatch hroom⟩
    exact List.forall_mem_singleton.mpr ⟨_, rfl, rfl⟩

end CompletionCheck.Lsp.Client
