import CompletionCheck.Proofs.Lsp.Answering
import CompletionCheck.Proofs.Lsp.Passing

/-!
# The notifications that a client keeps

A request and a forgetting keep the notifications that they go past, and of all of them the newest
`maxKept`.  A forgetting then drops those that fit.  A wait adds nothing: it takes the first one out
that fits, and when there is none it looks for one among the messages, where those that do not fit
are lost.

`Turn.Keeps` says this of a turn, each time from what was kept before and from the messages taken;
it is read off the loop that the turn is.  Every clause leaves a part of what was kept followed by
what was received, in this order.  So over a whole run what is kept is a part of everything received
so far, in its order, and nothing stands in it more often than it was received.
-/

namespace CompletionCheck.Lsp.Client

open Service (Outcome)

namespace Turn

/-- A turn has no reason to stop at messages. -/
def Skips (t : Turn) (ms : List Json) : Prop :=
  Skipped (t.move.operation.pick t.before.nextId) (t.before.begun t.move) ms

/-- What a wait does.  It looks among what is kept first, and only if nothing there fits does it
look at what is unread and what arrives.  The notifications that it passes there are not kept. -/
structure Waits (t : Turn) (method : String) (accept : Json → Bool) : Prop where
  /-- The first notification kept that fits is kept no longer, and all others are. -/
  kept : t.after.kept = t.before.kept.eraseP (fits method accept)
  /-- If there is one, the wait gives it and takes nothing. -/
  ready : ∀ n, t.before.kept.find? (fits method accept) = some n →
    t.result = .ok (.notification n.params) ∧ t.taken = []
  /-- Otherwise it gives the first one of the queue that fits and takes no more. -/
  arrived : t.before.kept.find? (fits method accept) = none →
    ∀ passed m n rest, t.queue = passed ++ m :: rest → t.Skips passed →
      Message.ofJson? m = some (.notification n) → fits method accept n = true →
      t.result = .ok (.notification n.params) ∧ t.taken = passed ++ [m]
  /-- When there is none in the queue either, time runs out, or the stream has ended. -/
  exhausted : t.before.kept.find? (fits method accept) = none → t.Skips t.queue →
    t.result = (if t.after.ended then .error .exited else .ok (.notification none)) ∧
      t.taken = t.queue
  /-- A wait that does not fail gives nothing else. -/
  sound : t.before.kept.find? (fits method accept) = none →
    ∀ found, t.result = .ok (.notification found) →
      found = ((notificationsIn t.queue).find? (fits method accept)).bind Notification.params

/-- What a turn does to the notifications kept, operation by operation.  A request and a forgetting
put those that they take behind the older ones and keep the last `maxKept`; the other two keep none
that arrives. -/
structure Keeps (t : Turn) : Prop where
  /-- After a request, however it ends, the newest are kept. -/
  request : t.isRequest = true →
    t.after.kept = (t.before.kept ++ notificationsIn t.taken).rtake maxKept
  /-- A forgetting that succeeds has taken everything, and drops what fits. -/
  forgot : ∀ method discard y, t.move.operation = .forget method discard → t.result = .ok y →
    t.taken = t.queue ∧ t.after.kept
      = ((t.before.kept ++ notificationsIn t.taken).rtake maxKept).filter
          fun n => !fits method discard n
  /-- One that fails drops nothing. -/
  failed : ∀ method discard e, t.move.operation = .forget method discard → t.result = .error e →
    t.after.kept = (t.before.kept ++ notificationsIn t.taken).rtake maxKept
  wait : ∀ method accept, t.move.operation = .wait method accept → t.Waits method accept
  notify : ∀ method params, t.move.operation = .notify method params →
    t.after.kept = t.before.kept ∧ t.taken = []

end Turn

/-! ## One turn -/

section Perform

variable {c d : Client} {m : Move} {t : Turn} {method : String} {accept : Json → Bool}

theorem Operation.pick_notification {op : Operation} (h : op.keeping = true) (k : Nat)
    (n : Notification) : op.pick k (.notification n) = none := by
  cases op with
  | wait => exact absurd h (by simp [Operation.keeping])
  | request | notify | forget => rfl

theorem exists_kept (hc : c.kept.length ≤ maxKept) (hkeeping : m.operation.keeping = true)
    (hreads : c.Reads m) : ∃ r e taken, c.perform m = m.operation.finish (r, e) ∧
      c.inbox ++ m.arrival.messages = taken ++ e.inbox ∧
      e.kept = (c.kept ++ notificationsIn taken).rtake maxKept ∧
      ∀ y, r = .ok y → (∀ msg, m.operation.pick c.nextId msg = none) → e.inbox = [] := by
  obtain ⟨r, e, hh, hrun⟩ := exists_halts hreads
  have hbegun : (c.begun m).kept.length ≤ maxKept := by rwa [begun_kept]
  have hkept := hh
  rw [hkeeping] at hkept
  obtain ⟨taken, hqueue, hkept⟩ := hkept.kept_eq (Operation.pick_notification hkeeping _) hbegun
  rw [begun_kept] at hkept
  refine ⟨r, e, taken, hrun, hqueue, hkept, fun y hy hnone => ?_⟩
  subst hy
  exact inbox_of_drained hnone hh

theorem request_keeps (hc : t.before.kept.length ≤ maxKept)
    (h : t.before.perform t.move = (t.result, t.after)) (hreq : t.isRequest = true) :
    t.after.kept = (t.before.kept ++ notificationsIn t.taken).rtake maxKept := by
  obtain ⟨c, ⟨op, a, room⟩, r, d⟩ := t
  cases op with
  | notify | wait | forget => exact absurd hreq (by simp [Turn.isRequest, Operation.isRequest])
  | request method params limit =>
      by_cases hroom : room = some 0
      · obtain ⟨hinbox, -, hkept⟩ := perform_unread (c := c)
          (m := ⟨.request method params limit, a, room⟩) fun hopen => hopen hroom
        rw [h] at hkept hinbox
        have htaken : Turn.taken ⟨c, ⟨.request method params limit, a, room⟩, r, d⟩ = [] :=
          Turn.taken_eq hinbox.symm
        rw [htaken, notificationsIn, List.filterMap_nil, List.append_nil, rtake_of_length_le hc]
        exact hkept rfl
      · obtain ⟨_, e, taken, hrun, hqueue, hkept, -⟩ := exists_kept hc
          (m := ⟨.request method params limit, a, room⟩) rfl hroom
        cases h.symm.trans hrun
        rw [Turn.taken_eq hqueue]
        exact hkept

theorem forget_keeps (hc : t.before.kept.length ≤ maxKept)
    (h : t.before.perform t.move = (t.result, t.after)) {discard : Json → Bool}
    (hop : t.move.operation = .forget method discard) :
    (∀ y, t.result = .ok y → t.taken = t.queue ∧ t.after.kept
      = ((t.before.kept ++ notificationsIn t.taken).rtake maxKept).filter
          fun n => !fits method discard n) ∧
    ∀ e, t.result = .error e →
      t.after.kept = (t.before.kept ++ notificationsIn t.taken).rtake maxKept := by
  obtain ⟨c, ⟨op, a, room⟩, r, d⟩ := t
  obtain rfl : op = .forget method discard := hop
  obtain ⟨x, e, taken, hrun, hqueue, hkept, hall⟩ := exists_kept hc
    (m := ⟨.forget method discard, a, room⟩) rfl trivial
  rw [hrun] at h
  cases x with
  | error x =>
      cases h
      rw [Turn.taken_eq hqueue]
      exact ⟨fun _ hok => absurd hok (by simp), fun _ _ => hkept⟩
  | ok y =>
      cases h
      refine ⟨fun _ _ => ⟨?_, ?_⟩, fun _ herror => absurd herror (by simp)⟩
      · rw [Turn.taken_eq hqueue]
        have hinbox := hall y rfl fun _ => rfl
        rw [Turn.queue, hqueue, hinbox, List.append_nil]
      · rw [Turn.taken_eq hqueue]
        exact congrArg (List.filter fun n => !fits method discard n) hkept

theorem not_fits_of_sense {ms : List Json} {k : Nat}
    (h : ∀ m ∈ ms, ∃ msg, Message.ofJson? m = some msg ∧
      (Operation.wait method accept).pick k msg = none) :
    ∀ n ∈ notificationsIn ms, fits method accept n = false := by
  intro n hn
  obtain ⟨m, hmem, hm⟩ := mem_notificationsIn.mp hn
  obtain ⟨msg, hmsg, hnone⟩ := h m hmem
  obtain rfl := Option.some.inj (hm.symm.trans hmsg)
  cases hfits : fits method accept n with
  | false => rfl
  | true => exact absurd hnone (by simp [Operation.pick, pickNotification, hfits])

theorem found_of_halts {ms : List Json} {k : Nat} {found : Option Json}
    (h : Halts false ((Operation.wait method accept).pick k) (Operation.wait method accept).atEnd
      c ms (.ok (.notification found)) d) :
    found = ((notificationsIn ms).find? (fits method accept)).bind Notification.params := by
  generalize hr : (Except.ok (.notification found) : Except ServiceError Yield) = r at h
  cases h with
  | undecodable | unanswered => exact absurd hr (by simp)
  | @exhausted _ e hp =>
      have hnone : (notificationsIn ms).find? (fits method accept) = none := by
        rw [List.find?_eq_none]
        intro n hn hfits
        exact absurd (not_fits_of_sense hp.not_picked n hn) (by simp [hfits])
      rw [hnone]
      cases hended : e.ended with
      | true => exact absurd hr (by simp [hended, Operation.atEnd, noNotification, Except.map])
      | false =>
          simp only [hended, Operation.atEnd, noNotification, Except.map] at hr
          exact Yield.notification.inj (Except.ok.inj hr)
  | @picked passed rest m msg y e hp hm hy =>
      obtain ⟨params, hpick, rfl⟩ := Option.map_eq_some_iff.mp hy
      obtain ⟨n, rfl, hfits, rfl⟩ := pickNotification_eq_some hpick
      have hfirst :
          (notificationsIn (passed ++ m :: rest)).find? (fits method accept) = some n := by
        rw [notificationsIn_append, notificationsIn_cons hm, List.find?_eq_some_iff_append]
        refine ⟨hfits, notificationsIn passed, notificationsIn rest, rfl, fun x hx => ?_⟩
        rw [not_fits_of_sense hp.not_picked x hx]
        rfl
      rw [hfirst, Option.bind_some, ← params_of_fits hfits]
      exact Yield.notification.inj (Except.ok.inj hr)

theorem halts_perform_wait (a : Arrival) (room : Option Nat)
    (h : c.kept.find? (fits method accept) = none) :
    Halts false ((Operation.wait method accept).pick c.nextId) (Operation.wait method accept).atEnd
      (c.begun ⟨.wait method accept, a, room⟩) (c.inbox ++ a.messages)
      (c.perform ⟨.wait method accept, a, room⟩).1
      (c.perform ⟨.wait method accept, a, room⟩).2 := by
  obtain ⟨r, e, hh, hrun⟩ := exists_halts (m := ⟨.wait method accept, a, room⟩) h
  rw [hrun]
  exact hh

theorem perform_wait_kept (a : Arrival) (room : Option Nat) :
    (c.perform ⟨.wait method accept, a, room⟩).2.kept = c.kept.eraseP (fits method accept) := by
  cases hfind : c.kept.find? (fits method accept) with
  | some n => rw [perform_wait_ready a room hfind]
  | none =>
      rw [(halts_perform_wait a room hfind).kept_of_dropping, begun_kept,
        List.eraseP_of_forall_not fun n hn => List.find?_eq_none.mp hfind n hn]

theorem perform_wait_arrived {a : Arrival} {passed rest : List Json} {x : Json} {n : Notification}
    (room : Option Nat) (h : c.kept.find? (fits method accept) = none)
    (hqueue : c.inbox ++ a.messages = passed ++ x :: rest)
    (hskips : Skipped ((Operation.wait method accept).pick c.nextId)
      (c.begun ⟨.wait method accept, a, room⟩) passed)
    (hx : Message.ofJson? x = some (.notification n)) (hfits : fits method accept n = true) :
    (c.perform ⟨.wait method accept, a, room⟩).1 = .ok (.notification n.params) ∧
      (c.perform ⟨.wait method accept, a, room⟩).2.inbox = rest := by
  obtain ⟨e, hp⟩ := hskips.passes false
  have hpick : (Operation.wait method accept).pick c.nextId (.notification n)
      = some (.notification n.params) := by
    rw [← params_of_fits hfits]
    simp [Operation.pick, pickNotification, hfits]
  have hh : Halts false ((Operation.wait method accept).pick c.nextId)
      (Operation.wait method accept).atEnd (c.begun ⟨.wait method accept, a, room⟩)
      (c.inbox ++ a.messages) (.ok (.notification n.params)) (e.leave rest) := by
    rw [hqueue]
    exact .picked hp hx hpick
  rw [perform_of_halts (m := ⟨.wait method accept, a, room⟩) h hh]
  exact ⟨rfl, rfl⟩

theorem perform_wait_exhausted {a : Arrival} (room : Option Nat)
    (h : c.kept.find? (fits method accept) = none)
    (hskips : Skipped ((Operation.wait method accept).pick c.nextId)
      (c.begun ⟨.wait method accept, a, room⟩) (c.inbox ++ a.messages)) :
    (c.perform ⟨.wait method accept, a, room⟩).1
        = (if (c.perform ⟨.wait method accept, a, room⟩).2.ended then .error .exited
          else .ok (.notification none)) ∧
      (c.perform ⟨.wait method accept, a, room⟩).2.inbox = [] := by
  obtain ⟨e, hp⟩ := hskips.passes false
  rw [perform_of_halts (m := ⟨.wait method accept, a, room⟩) h (.exhausted hp)]
  refine ⟨?_, rfl⟩
  show (noNotification e.ended).map Yield.notification
    = if e.ended = true then .error .exited else .ok (.notification none)
  rw [noNotification]
  cases e.ended <;> rfl

theorem perform_wait_sound {a : Arrival} {room : Option Nat} {found : Option Json}
    (h : c.kept.find? (fits method accept) = none)
    (hfound : (c.perform ⟨.wait method accept, a, room⟩).1 = .ok (.notification found)) :
    found = ((notificationsIn (c.inbox ++ a.messages)).find? (fits method accept)).bind
      Notification.params := by
  have hh := halts_perform_wait a room h
  rw [hfound] at hh
  exact found_of_halts hh

theorem wait_waits (h : t.before.perform t.move = (t.result, t.after))
    (hop : t.move.operation = .wait method accept) : t.Waits method accept := by
  obtain ⟨c, ⟨op, a, room⟩, r, d⟩ := t
  obtain rfl : op = .wait method accept := hop
  obtain ⟨rfl, rfl⟩ : (c.perform ⟨.wait method accept, a, room⟩).1 = r ∧
      (c.perform ⟨.wait method accept, a, room⟩).2 = d := by
    rw [show c.perform ⟨.wait method accept, a, room⟩ = (r, d) from h]
    exact ⟨rfl, rfl⟩
  refine ⟨perform_wait_kept a room, fun n hn => ?_,
    fun hnone passed m n rest hqueue hskips hm hfits => ?_, fun hnone hskips => ?_,
    fun hnone found hfound => ?_⟩
  · have hrun := perform_wait_ready a room hn
    refine ⟨by rw [hrun], Turn.taken_eq ?_⟩
    rw [hrun]
    rfl
  · obtain ⟨hresult, hinbox⟩ := perform_wait_arrived room hnone hqueue hskips hm hfits
    refine ⟨hresult, Turn.taken_eq ?_⟩
    rw [hqueue, hinbox, List.append_assoc]
    rfl
  · obtain ⟨hresult, hinbox⟩ := perform_wait_exhausted room hnone hskips
    refine ⟨hresult, Turn.taken_eq ?_⟩
    rw [hinbox, List.append_nil]
  · exact perform_wait_sound hnone hfound

theorem notify_keeps (h : t.before.perform t.move = (t.result, t.after)) {params : Json}
    (hop : t.move.operation = .notify method params) :
    t.after.kept = t.before.kept ∧ t.taken = [] := by
  obtain ⟨c, ⟨op, a, room⟩, r, d⟩ := t
  obtain rfl : op = .notify method params := hop
  obtain ⟨hinbox, -, hkept⟩ := perform_unread (c := c) (m := ⟨.notify method params, a, room⟩) id
  rw [h] at hkept hinbox
  exact ⟨hkept rfl, Turn.taken_eq hinbox.symm⟩

theorem keeps_of_perform (hc : t.before.kept.length ≤ maxKept)
    (h : t.before.perform t.move = (t.result, t.after)) : t.Keeps where
  request := request_keeps hc h
  forgot _ _ y hop hok := (forget_keeps hc h hop).1 y hok
  failed _ _ e hop herror := (forget_keeps hc h hop).2 e herror
  wait _ _ hop := wait_waits h hop
  notify _ _ hop := notify_keeps h hop

/-- What is kept after a turn is a part of what was kept before and what was received in it, and
there is room for it. -/
theorem Turn.Keeps.bounded (h : t.Keeps) (hc : t.before.kept.length ≤ maxKept) :
    t.after.kept.Sublist (t.before.kept ++ notificationsIn t.taken) ∧
      t.after.kept.length ≤ maxKept := by
  have newest (xs : List Notification) : (xs.rtake maxKept).Sublist xs ∧
      (xs.rtake maxKept).length ≤ maxKept := ⟨rtake_sublist xs maxKept, length_rtake_le xs maxKept⟩
  cases hop : t.move.operation with
  | request method params limit =>
      rw [h.request (by rw [Turn.isRequest, hop]; rfl)]
      exact newest _
  | notify method params =>
      rw [(h.notify method params hop).1]
      exact ⟨List.sublist_append_left _ _, hc⟩
  | wait method accept =>
      have hpart : (t.before.kept.eraseP (fits method accept)).Sublist t.before.kept :=
        List.eraseP_sublist
      rw [(h.wait method accept hop).kept]
      exact ⟨hpart.trans (List.sublist_append_left _ _), Nat.le_trans hpart.length_le hc⟩
  | forget method discard =>
      cases hresult : t.result with
      | error e =>
          rw [h.failed method discard e hop hresult]
          exact newest _
      | ok y =>
          obtain ⟨hpart, hle⟩ := newest (t.before.kept ++ notificationsIn t.taken)
          rw [(h.forgot method discard y hop hresult).2]
          exact ⟨List.filter_sublist.trans hpart, Nat.le_trans (List.length_filter_le _ _) hle⟩

/-- No move lets more than `maxKept` notifications be kept. -/
theorem perform_kept_le (hc : c.kept.length ≤ maxKept) (m : Move) :
    (c.perform m).2.kept.length ≤ maxKept :=
  ((keeps_of_perform (t := ⟨c, m, (c.perform m).1, (c.perform m).2⟩) hc rfl).bounded hc).2

end Perform

/-! ## Every turn of every run -/

theorem kept_sublist_of_turns (moves : List Move) : ∀ (received : List Json) {c : Client},
    c.kept.length ≤ maxKept → c.kept.Sublist (notificationsIn received) →
    ∀ {earlier later : List Turn} {t : Turn}, turns c moves = earlier ++ t :: later →
      t.after.kept.Sublist
        (notificationsIn (received ++ earlier.flatMap Turn.taken ++ t.taken)) := by
  induction moves with
  | nil => intro received c _ _ earlier later t h; exact absurd h (by simp [turns])
  | cons m rest ih =>
      intro received c hc hsub earlier later t h
      have hkeeps := keeps_of_perform (t := ⟨c, m, (c.perform m).1, (c.perform m).2⟩) hc rfl
      have hpart := (hkeeps.bounded hc).1.trans
        (hsub.append (List.Sublist.refl (notificationsIn (Turn.taken ⟨c, m, _, _⟩))))
      rw [← notificationsIn_append] at hpart
      rw [turns] at h
      cases earlier with
      | nil =>
          obtain ⟨rfl, rfl⟩ := List.cons.inj h
          rw [List.flatMap_nil, List.append_nil]
          exact hpart
      | cons e earlier =>
          obtain ⟨rfl, htail⟩ := List.cons.inj h
          rw [List.flatMap_cons, ← List.append_assoc received]
          exact ih _ (perform_kept_le hc m) hpart htail

/-- **A client keeps the newest notifications.**  At every turn of every run from a fresh client,
with `earlier` the turns before it: the turn does to the notifications kept what `Turn.Keeps` says;
afterwards there are at most `maxKept`, and they stand among the notifications received so far in
the order in which these arrived, each no more often than it did. -/
theorem newest_are_kept (moves : List Move) (earlier later : List Turn) (t : Turn)
    (h : turns {} moves = earlier ++ t :: later) :
    t.Keeps ∧ t.after.kept.length ≤ maxKept ∧
      t.after.kept.Sublist (notificationsIn (earlier.flatMap Turn.taken ++ t.taken)) ∧
      incoming moves = earlier.flatMap Turn.taken ++ t.taken ++ t.after.inbox
        ++ incoming (later.map Turn.move) := by
  obtain ⟨hperform, -, hstream⟩ := turn_of_turns moves h
  have hmem : t ∈ turns {} moves := by rw [h]; simp
  have hbefore := (invariant_of_turns (I := fun c => c.kept.length ≤ maxKept)
    (fun _ m hc => perform_kept_le hc m) moves (Nat.zero_le _) t hmem).1
  have hkeeps := keeps_of_perform hbefore hperform
  have had := perform_advance t.before t.move
  rw [hperform] at had
  refine ⟨hkeeps, (hkeeps.bounded hbefore).2, ?_, ?_⟩
  · exact kept_sublist_of_turns moves [] (Nat.zero_le _) (List.nil_sublist _) h
  · rw [List.append_assoc (earlier.flatMap _), Turn.taken_append had.inbox]
    simpa using hstream

/-- A notification as it arrives. -/
def told (method : String) (params : Nat) : Json :=
  .obj [("jsonrpc", .str "2.0"), ("method", .str method), ("params", .int params)]

/-- A request that runs out of time while notifications arrive, a wait that takes one from between
the others, and a forgetting that meets one more. -/
def pickedOver : List Move :=
  [{ operation := .request "open" .null 5
     arrival := { messages := [told "a" 1, told "b" 2, told "a" 3] } },
   { operation := .wait "b" fun _ => true },
   { operation := .forget "a" fun params => params.signed64? == some 3
     arrival := { messages := [told "b" 4] } }]

theorem newest_are_kept_picked : ∃ first second third,
    turns {} pickedOver = [first, second] ++ third :: [] ∧
      first.after.kept.length = 3 ∧
      second.result = .ok (.notification (some (.int 2))) ∧
      third.after.kept = [⟨"a", some (.int 1)⟩, ⟨"b", some (.int 4)⟩] ∧
      third.Keeps ∧ third.after.kept.length ≤ maxKept := by
  refine ⟨_, _, _, rfl, rfl, rfl, rfl, ?_⟩
  obtain ⟨hkeeps, hle, -⟩ := newest_are_kept pickedOver [_, _] [] _ rfl
  exact ⟨hkeeps, hle⟩

end CompletionCheck.Lsp.Client
