import CompletionCheck.Proofs.Lsp.Correlation
import Mathlib.Data.List.DropRight

/-!
# What going through messages leaves

`search_halts` says that a loop over messages has four ends.  The other direction is
`Halts.search_eq`: where the conditions of an end hold, the loop ends so.  Its heart is that
messages which the loop has no reason to stop at are passed (`Skipped.passes`), and that the loop
then goes on with the rest (`Passes.search_append`).

Of the messages that are passed two things are left, the answers to requests and, when the loop
keeps notifications, the newest `maxKept` of those kept before and those passed
(`Passes.kept_eq`).  That nothing older stays rests on a client never keeping more than `maxKept`.

A move that reads its inbox is such a loop whatever its operation is (`perform_eq_search`), with
what `Operation.pick` and `Operation.atEnd` say as its parameters.
-/

namespace CompletionCheck.Lsp.Client

open Service (Outcome)

/-! ## Notifications among messages -/

section Notifications

variable {ms : List Json}

def notificationOf? : Message → Option Notification
  | .notification n => some n
  | _ => none

def notificationsIn (ms : List Json) : List Notification :=
  ms.filterMap fun m => (Message.ofJson? m).bind notificationOf?

theorem notificationsIn_append (xs ys : List Json) :
    notificationsIn (xs ++ ys) = notificationsIn xs ++ notificationsIn ys :=
  List.filterMap_append

theorem notificationsIn_cons {m : Json} {msg : Message} (h : Message.ofJson? m = some msg) :
    notificationsIn (m :: ms) = (notificationOf? msg).toList ++ notificationsIn ms := by
  rw [notificationsIn, List.filterMap_cons, h, Option.bind_some]
  cases notificationOf? msg <;> rfl

theorem notificationsIn_singleton_of_none {m : Json} (h : Message.ofJson? m = none) :
    notificationsIn [m] = [] := by
  rw [notificationsIn, List.filterMap_cons, h]
  rfl

theorem mem_notificationsIn {n : Notification} :
    n ∈ notificationsIn ms ↔ ∃ m ∈ ms, Message.ofJson? m = some (.notification n) := by
  simp only [notificationsIn, List.mem_filterMap, Option.bind_eq_some_iff]
  constructor
  · rintro ⟨m, hmem, msg, hm, hn⟩
    cases msg with
    | notification x => cases hn; exact ⟨m, hmem, hm⟩
    | response | request => exact absurd hn (by simp [notificationOf?])
  · rintro ⟨m, hmem, hm⟩
    exact ⟨m, hmem, _, hm, rfl⟩

end Notifications

/-! ## The newest of a list -/

section Newest

variable {β : Type} {xs : List β} {k : Nat}

theorem rtake_of_length_le (h : xs.length ≤ k) : xs.rtake k = xs := by
  rw [List.rtake, Nat.sub_eq_zero_of_le h, List.drop_zero]

theorem length_rtake_le (xs : List β) (k : Nat) : (xs.rtake k).length ≤ k := by
  rw [List.rtake, List.length_drop]
  omega

theorem rtake_sublist (xs : List β) (k : Nat) : (xs.rtake k).Sublist xs :=
  List.drop_sublist _ _

theorem rtake_rtake_append (xs ys : List β) (k : Nat) :
    (xs.rtake k ++ ys).rtake k = (xs ++ ys).rtake k := by
  simp only [List.rtake_eq_reverse_take_reverse, List.reverse_append, List.reverse_reverse,
    List.take_append, List.take_take]
  congr 3
  omega

end Newest

section Loops

variable {α : Type} {keeping : Bool} {pick : Message → Option α}
  {atEnd : Bool → Except ServiceError α} {c d : Client} {ms : List Json}

/-! ## What is kept -/

theorem keep_kept (h : c.kept.length ≤ maxKept) (n : Notification) :
    (c.keep n).kept = (c.kept ++ [n]).rtake maxKept := by
  have hover : (c.kept ++ [n]).length - maxKept = if c.kept.length = maxKept then 1 else 0 := by
    rw [List.length_append, List.length_singleton]
    split <;> omega
  rw [List.rtake, hover, keep]
  split
  · next heq => exact (List.drop_append_of_le_length (by rw [heq]; decide)).symm
  · rfl

theorem Passes.kept_eq (h : Passes true pick c ms d) (hc : c.kept.length ≤ maxKept) :
    d.kept = (c.kept ++ notificationsIn ms).rtake maxKept := by
  induction h with
  | nil c =>
      rw [notificationsIn, List.filterMap_nil, List.append_nil, rtake_of_length_le hc]
  | @cons c d e m msg ms hm _ hpass _ ih =>
      rw [notificationsIn_cons hm]
      cases msg with
      | response => cases hpass; exact ih hc
      | request id method params =>
          obtain ⟨-, -, rfl⟩ | ⟨hr, -⟩ := write_cases hpass
          · exact ih hc
          · exact absurd hr (by simp)
      | notification n =>
          obtain rfl : c.keep n = d := congrArg Prod.snd hpass
          have hbound : (c.keep n).kept.length ≤ maxKept := by
            rw [keep_kept hc]
            exact length_rtake_le _ _
          rw [ih hbound, keep_kept hc, rtake_rtake_append, List.append_assoc]
          rfl

theorem Passes.kept_of_dropping (h : Passes false pick c ms d) : d.kept = c.kept := by
  induction h with
  | nil => rfl
  | @cons c d e m msg ms _ _ hpass _ ih =>
      rw [ih]
      cases msg with
      | response | notification => cases hpass; rfl
      | request id method params =>
          obtain ⟨-, -, rfl⟩ | ⟨hr, -⟩ := write_cases hpass
          · rfl
          · exact absurd hr (by simp)

/-- Whichever way a loop ends that keeps notifications and looks for none, it has kept those among
the messages that it has taken. -/
theorem Halts.kept_eq {r : Except ServiceError α} (h : Halts true pick atEnd c ms r d)
    (hcalm : ∀ n, pick (.notification n) = none) (hc : c.kept.length ≤ maxKept) :
    ∃ taken, ms = taken ++ d.inbox ∧ d.kept = (c.kept ++ notificationsIn taken).rtake maxKept := by
  -- the last message taken is no notification
  have last {passed : List Json} {m : Json} (hm : notificationsIn [m] = []) :
      notificationsIn passed = notificationsIn (passed ++ [m]) := by
    rw [notificationsIn_append, hm, List.append_nil]
  cases h with
  | exhausted hp => exact ⟨ms, by simp [leave], hp.kept_eq hc⟩
  | @picked passed rest m msg a e hp hm ha =>
      refine ⟨passed ++ [m], by simp [leave], ?_⟩
      rw [← last]
      · exact hp.kept_eq hc
      · cases msg with
        | notification n => exact absurd ((hcalm n).symm.trans ha) (by simp)
        | response | request => rw [notificationsIn_cons hm]; rfl
  | @undecodable passed rest m e hp hm =>
      refine ⟨passed ++ [m], by simp [leave], ?_⟩
      rw [← last (notificationsIn_singleton_of_none hm)]
      exact hp.kept_eq hc
  | @unanswered passed rest m id method params e hp hm =>
      refine ⟨passed ++ [m], by simp [leave], ?_⟩
      rw [← last (by rw [notificationsIn_cons hm]; rfl)]
      exact hp.kept_eq hc

theorem Halts.kept_of_dropping {r : Except ServiceError α}
    (h : Halts false pick atEnd c ms r d) : d.kept = c.kept := by
  cases h with
  | exhausted hp | picked hp | undecodable hp | unanswered hp => exact hp.kept_of_dropping

/-! ## Every end comes about -/

/-- A loop has no reason to stop at messages: they make sense, none is picked, and the requests
among them can be answered. -/
structure Skipped (pick : Message → Option α) (c : Client) (ms : List Json) : Prop where
  sense : ∀ m ∈ ms, ∃ msg, Message.ofJson? m = some msg ∧ pick msg = none
  room : ∀ room, c.writesLeft = some room → (answersTo ms).length ≤ room

theorem Skipped.passes (h : Skipped pick c ms) (keeping : Bool) :
    ∃ d, Passes keeping pick c ms d := by
  induction ms generalizing c with
  | nil => exact ⟨c, .nil c⟩
  | cons m rest ih =>
      obtain ⟨msg, hm, hp⟩ := h.sense m List.mem_cons_self
      have hsense : ∀ x ∈ rest, ∃ msg, Message.ofJson? x = some msg ∧ pick msg = none :=
        fun x hx => h.sense x (List.mem_cons_of_mem m hx)
      have hanswers : answersTo (m :: rest) = (answerOf? msg).toList ++ answersTo rest := by
        rw [answersTo, List.filterMap_cons, hm, Option.bind_some]
        cases answerOf? msg <;> rfl
      -- a message that calls for no answer leaves as much room as before
      have quiet {e : Client} (hpass : c.pass keeping msg = (.ok (), e))
          (he : e.writesLeft = c.writesLeft) (hnone : answerOf? msg = none) :
          ∃ d, Passes keeping pick c (m :: rest) d := by
        have hrest : Skipped pick e rest := by
          refine ⟨hsense, fun room hroom => ?_⟩
          have hle := h.room room (he.symm.trans hroom)
          rwa [hanswers, hnone, Option.toList_none, List.nil_append] at hle
        obtain ⟨d, hd⟩ := ih hrest
        exact ⟨d, .cons hm hp hpass hd⟩
      cases msg with
      | response id result => exact quiet rfl rfl rfl
      | notification n => cases keeping <;> exact quiet rfl rfl rfl
      | request id method params =>
          have hle : ∀ room, c.writesLeft = some room → (answersTo rest).length + 1 ≤ room := by
            intro room hroom
            have hle := h.room room hroom
            rw [hanswers] at hle
            simpa [answerOf?, Nat.add_comm] using hle
          rcases hpass : c.pass keeping (.request id method params) with ⟨r, e⟩
          obtain ⟨rfl, -, rfl⟩ | ⟨-, hclosed, -⟩ := write_cases hpass
          · have hrest : Skipped pick (c.wrote (nullAnswer id)) rest := by
              refine ⟨hsense, fun room hroom => ?_⟩
              obtain ⟨left, hleft, rfl⟩ := Option.map_eq_some_iff.mp hroom
              have hle := hle left hleft
              omega
            obtain ⟨d, hd⟩ := ih hrest
            exact ⟨d, .cons hm hp hpass hd⟩
          · have hle := hle 0 hclosed
            omega

theorem Passes.search_append (h : Passes keeping pick c ms d) (rest : List Json) :
    search keeping pick atEnd (ms ++ rest) c = search keeping pick atEnd rest d := by
  induction h with
  | nil => rfl
  | cons hm hp hpass _ ih =>
      rw [List.cons_append, search, hm]
      simp only [hp, hpass]
      exact ih

theorem Halts.search_eq {r : Except ServiceError α} (h : Halts keeping pick atEnd c ms r d) :
    search keeping pick atEnd ms c = (r, d) := by
  cases h with
  | exhausted hp =>
      have happend : search keeping pick atEnd (ms ++ []) c = search keeping pick atEnd [] _ :=
        hp.search_append []
      rwa [List.append_nil] at happend
  | picked hp hm ha =>
      rw [hp.search_append, search, hm]
      simp only [ha]
  | undecodable hp hm => rw [hp.search_append, search, hm]
  | @unanswered passed rest m id method params e hp hm hn hw =>
      rw [hp.search_append, search, hm]
      simp only [hn]
      rcases hpass : e.pass keeping (.request id method params) with ⟨r, x⟩
      obtain ⟨-, hopen, -⟩ | ⟨rfl, -, rfl⟩ := write_cases hpass
      · exact absurd hw hopen
      · rfl

theorem search_gives (f : α → Yield) (ms : List Json) : ∀ c : Client,
    Operation.gives f (search keeping pick atEnd ms c)
      = search keeping (fun msg => (pick msg).map f) (fun ended => (atEnd ended).map f) ms c := by
  induction ms with
  | nil => intro c; rfl
  | cons m rest ih =>
      intro c
      rw [search, search]
      cases Message.ofJson? m with
      | none => rfl
      | some msg =>
          cases hp : pick msg with
          | some a => simp only [hp, Option.map_some]; rfl
          | none =>
              simp only [hp, Option.map_none]
              rcases c.pass keeping msg with ⟨_ | _, d⟩
              · rfl
              · exact ih d

end Loops

/-! ## Moves that read -/

/-- Whether an operation keeps the notifications that it goes past. -/
def Operation.keeping : Operation → Bool
  | .wait .. => false
  | _ => true

/-- What ends an operation, when its request, if it is one, has the number `n`. -/
def Operation.pick (n : Nat) : Operation → Message → Option Yield
  | .request .., msg => (pickResponse n msg).map .answer
  | .wait method accept, msg => (pickNotification method accept msg).map .notification
  | .notify .., _ | .forget .., _ => none

/-- What comes of an operation that goes through everything. -/
def Operation.atEnd : Operation → Bool → Except ServiceError Yield
  | .request method _ limit, ended => (noResponse method limit ended).map .answer
  | .wait .., ended => (noNotification ended).map .notification
  | .notify .., _ | .forget .., _ => .ok .done

/-- What an operation does when it has gone through messages. -/
def Operation.finish : Operation → Outcome Client Yield → Outcome Client Yield
  | .forget method discard, (.ok y, c) =>
    (.ok y, { c with kept := c.kept.filter fun n => !fits method discard n })
  | _, o => o

/-- A move reads its inbox: a request that can be written, a wait that finds nothing among the
notifications kept, and a forgetting. -/
def Reads (c : Client) (m : Move) : Prop :=
  match m.operation with
  | .request .. => m.room ≠ some 0
  | .notify .. => False
  | .wait method accept => c.kept.find? (fits method accept) = none
  | .forget .. => True

theorem perform_eq_search {c : Client} {m : Move} (h : c.Reads m) :
    c.perform m = m.operation.finish (search m.operation.keeping (m.operation.pick c.nextId)
      m.operation.atEnd (c.inbox ++ m.arrival.messages) (c.begun m)) := by
  obtain ⟨op, a, room⟩ := m
  cases op with
  | request method params limit =>
      have hrun := request_eq_search (c := c.ready ⟨.request method params limit, a, room⟩) h method
        params limit (c.inbox ++ a.messages)
      exact (congrArg (Operation.gives .answer) hrun).trans (search_gives .answer _ _)
  | notify => exact absurd h id
  | wait method accept =>
      have hnone : (c.ready ⟨.wait method accept, a, room⟩).takeKept? method accept = none := by
        have hfind : c.kept.find? (fits method accept) = none := h
        rw [takeKept?, takeFirst?_eq]
        simp only [ready, deliver, hfind, Option.map_none]
      have hrun := wait_eq_search hnone (c.inbox ++ a.messages)
      exact (congrArg (Operation.gives .notification) hrun).trans (search_gives .notification _ _)
  | forget method discard =>
      have hrun := forget_eq_search (c.ready ⟨.forget method discard, a, room⟩) method discard
        (c.inbox ++ a.messages)
      refine (congrArg (Operation.gives fun _ => .done) hrun).trans ?_
      have hgives : Operation.gives (fun _ : Unit => .done) (search true (fun _ => none)
          (fun _ => .ok ()) (c.inbox ++ a.messages) (c.ready ⟨.forget method discard, a, room⟩))
        = _ := search_gives _ _ _
      rcases hsearch : search true (fun _ => none) (fun _ => .ok ()) (c.inbox ++ a.messages)
        (c.ready ⟨.forget method discard, a, room⟩) with ⟨_ | _, d⟩
      all_goals
        rw [hsearch] at hgives
        exact congrArg (Operation.finish (.forget method discard)) hgives

section Moves

variable {c d e : Client} {m : Move} {r : Except ServiceError Yield}

theorem exists_halts (h : c.Reads m) : ∃ r e,
    Halts m.operation.keeping (m.operation.pick c.nextId) m.operation.atEnd (c.begun m)
      (c.inbox ++ m.arrival.messages) r e ∧ c.perform m = m.operation.finish (r, e) :=
  ⟨_, _, search_halts _ rfl, perform_eq_search h⟩

theorem perform_of_halts (h : c.Reads m)
    (hh : Halts m.operation.keeping (m.operation.pick c.nextId) m.operation.atEnd (c.begun m)
      (c.inbox ++ m.arrival.messages) r e) : c.perform m = m.operation.finish (r, e) := by
  rw [perform_eq_search h, hh.search_eq]

theorem finish_frame (op : Operation) (o : Outcome Client Yield) :
    ∃ kept, op.finish o = (o.1, { o.2 with kept }) := by
  obtain ⟨_ | y, d⟩ := o
  all_goals cases op <;> exact ⟨_, rfl⟩

theorem params_of_fits {method : String} {accept : Json → Bool} {n : Notification}
    (h : fits method accept n = true) : some (n.params.getD .null) = n.params := by
  obtain ⟨name, params⟩ := n
  cases params with
  | none => exact absurd h (by simp [fits])
  | some params => rfl

theorem perform_wait_ready {method : String} {accept : Json → Bool} {n : Notification}
    (a : Arrival) (room : Option Nat) (h : c.kept.find? (fits method accept) = some n) :
    c.perform ⟨.wait method accept, a, room⟩ = (.ok (.notification n.params),
      { c.ready ⟨.wait method accept, a, room⟩ with
        kept := c.kept.eraseP (fits method accept) }) := by
  have hfits : fits method accept n = true := List.find?_some h
  have hkept : (c.ready ⟨.wait method accept, a, room⟩).kept = c.kept := rfl
  simp only [perform, Operation.run, Operation.gives, wait, takeKept?, takeFirst?_eq, hkept, h,
    Option.map_some, deliver_nothing, Except.map, params_of_fits hfits]

/-- A move that reads nothing takes nothing, and it can fail only because it cannot write.  Unless
it is a wait, what is kept stays as it is. -/
theorem perform_unread (h : ¬ c.Reads m) :
    (c.perform m).2.inbox = c.inbox ++ m.arrival.messages ∧
      (∀ e, (c.perform m).1 = .error e → e = .io .brokenPipe) ∧
      (m.operation.keeping = true → (c.perform m).2.kept = c.kept) := by
  obtain ⟨op, a, room⟩ := m
  cases op with
  | request method params limit =>
      rcases hrun : (c.ready ⟨.request method params limit, a, room⟩).request method params limit {}
        with ⟨r, d⟩
      obtain ⟨hopen, -⟩ | ⟨rfl, -, rfl⟩ := request_cases hrun
      · exact absurd hopen h
      · simp only [perform, Operation.run, Operation.gives, hrun]
        exact ⟨rfl, fun e he => (Except.error.inj he).symm, fun _ => rfl⟩
  | notify method params =>
      rcases hrun : (c.ready ⟨.notify method params, a, room⟩).notify method params with ⟨r, d⟩
      simp only [perform, Operation.run, Operation.gives, hrun]
      obtain ⟨rfl, -, rfl⟩ | ⟨rfl, -, rfl⟩ := write_cases hrun
      · exact ⟨rfl, fun e he => absurd he (by simp [Except.map]), fun _ => rfl⟩
      · exact ⟨rfl, fun e he => (Except.error.inj he).symm, fun _ => rfl⟩
  | wait method accept =>
      obtain ⟨n, hn⟩ := Option.ne_none_iff_exists'.mp h
      rw [perform_wait_ready a room hn]
      exact ⟨rfl, fun e he => absurd he (by simp), fun hkeeping => absurd hkeeping (by
        simp [Operation.keeping])⟩
  | forget => exact absurd trivial h

end Moves

end CompletionCheck.Lsp.Client
