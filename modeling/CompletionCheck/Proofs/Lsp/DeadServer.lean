import CompletionCheck.Lsp.Wire
import CompletionCheck.Proofs.Lsp.ClientRun
import CompletionCheck.Proofs.Lsp.Feeding
import CompletionCheck.Proofs.Lsp.LostReadiness
import CompletionCheck.Proofs.Lsp.Refinement

/-!
# Nothing comes of a dead server

The incoming stream of a session ends when the server closes it, or when the reader stops at
something that is no frame.  What was read before is still there: diagnostics that look as if the
server were ready, a response with the number that the next request will have.  None of it may be
taken for a sign of life.

Three facts keep it from that.  The end of the stream is final: nothing that the server writes
afterwards comes through (`Wire.Spent`).  A configuration takes in everything unread before its case
goes on, so that no response is left, and forgets the diagnostics about the very document that the
preparation then waits for (`Settled`).  So this wait has nothing to go through, and where nothing
can arrive a search that finds nothing fails (`Halts.of_nil`).

A client whose inbox is empty is in the same position for good (`Client.Drained`), except that
notifications kept from better days can still end a wait.
-/

namespace CompletionCheck.Lsp

/-! ## The end of a stream -/

namespace Wire

/-- Everything was let through, and nothing can be read any more. -/
structure Spent (w : Wire) : Prop where
  empty : w.inFlight = []
  silenced : w.closed = true ∨ ∃ why, w.reader = .stopped why

/-- What the other side does between two looks at a wire: it writes, and may close. -/
def act (w : Wire) (bytes : List UInt8) (closes : Bool) : Wire :=
  if closes then (w.write bytes).close else w.write bytes

/-- `Brings w arrivals`: these arrivals come through a wire one after the other, whatever the other
side does before each. -/
inductive Brings : Wire → List Arrival → Prop
  | nil (w : Wire) : Brings w []
  | cons {w : Wire} {bytes : List UInt8} {closes : Bool} {arrivals : List Arrival} :
      Brings (w.act bytes closes).release.2 arrivals →
      Brings w ((w.act bytes closes).release.1 :: arrivals)

variable {w : Wire}

theorem spent_of_ended (h : w.release.1.ended = true) : w.release.2.Spent := by
  rcases hfeed : w.reader.feed w.inFlight with ⟨reader, messages⟩
  simp only [release, hfeed] at h ⊢
  cases reader with
  | stopped why => exact ⟨rfl, Or.inr ⟨why, rfl⟩⟩
  | header | body => exact ⟨rfl, Or.inl (by simpa using h)⟩

/-- What comes through a stream that has ended. -/
def silence : Arrival := { ended := true }

/-- A stream that has ended brings nothing and stays as it is. -/
theorem Spent.release_act (h : w.Spent) (bytes : List UInt8) (closes : Bool) :
    (w.act bytes closes).release.1 = silence ∧ (w.act bytes closes).release.2.Spent := by
  obtain ⟨hempty, hclosed | ⟨why, hwhy⟩⟩ := h
  -- a stream that was closed takes nothing more, and a reader that has stopped reads it in vain
  · have hact : (w.act bytes closes).inFlight = [] ∧ (w.act bytes closes).closed = true := by
      cases closes <;> simp [act, write, close, hclosed, hempty]
    have hfeed : (w.act bytes closes).reader.feed [] = ((w.act bytes closes).reader, []) := rfl
    simp only [release, hact, hfeed, Bool.or_true]
    exact ⟨rfl, rfl, Or.inl rfl⟩
  · have hwrite : (w.write bytes).reader = .stopped why := by
      rw [write]
      split
      · exact hwhy
      · exact hwhy
    have hact : (w.act bytes closes).reader = .stopped why := by
      cases closes with
      | true => exact hwrite
      | false => exact hwrite
    simp only [release, hact, Reader.feed_stopped]
    exact ⟨rfl, rfl, Or.inr ⟨why, rfl⟩⟩

theorem Brings.silent {arrivals : List Arrival} (h : Brings w arrivals) :
    w.Spent → ∀ a ∈ arrivals, a.messages = [] := by
  induction h with
  | nil => intro _ a ha; exact absurd ha List.not_mem_nil
  | @cons w bytes closes arrivals _ ih =>
      intro hspent a ha
      obtain ⟨hnothing, hstill⟩ := hspent.release_act bytes closes
      rcases List.mem_cons.mp ha with rfl | ha
      · rw [hnothing]
        rfl
      · exact ih hstill a ha

theorem Spent.brings (n : Nat) : ∀ {w : Wire}, w.Spent → Brings w (List.replicate n silence) := by
  induction n with
  | zero => exact fun {w} _ => .nil w
  | succ n ih =>
      intro w h
      obtain ⟨hnothing, hstill⟩ := h.release_act [] false
      rw [List.replicate_succ, ← hnothing]
      exact .cons (hnothing ▸ ih hstill)

end Wire

/-! ## A client without input -/

namespace Client

variable {α : Type} {keeping : Bool} {pick : Message → Option α}
  {atEnd : Bool → Except ServiceError α} {c d : Client} {kept : List Notification}

theorem ended_deliver (h : c.ended = true) (a : Arrival) : (c.deliver a).ended = true :=
  (Bool.or_eq_true _ _).mpr (Or.inl h)

theorem Halts.of_nil {ms : List Json} {r : Except ServiceError α}
    (h : Halts keeping pick atEnd c ms r d) (hms : ms = []) :
    r = atEnd c.ended ∧ d = c.leave [] := by
  cases h with
  | exhausted hp =>
      subst hms
      cases hp
      exact ⟨rfl, rfl⟩
  | picked | undecodable | unanswered => exact absurd hms (by simp)

/-- What a move makes of the two things that a client has besides its inbox: whether anything more
can arrive, and the notifications that it keeps. -/
structure Carried (c : Client) (m : Move) (d : Client) : Prop where
  ended : d.ended = (c.ended || m.arrival.ended)
  kept : ∀ n ∈ d.kept, n ∈ c.kept ∨ Brought (c.inbox ++ m.arrival.messages) n

theorem carried_perform (c : Client) (m : Move) : Carried c m (c.perform m).2 := by
  rcases hrun : c.perform m with ⟨r, d⟩
  cases perform_cases hrun with
  | refused => exact ⟨rfl, fun n hn => Or.inl hn⟩
  | spared _ hkept => exact ⟨begun_ended c m, fun n hn => Or.inl (hkept hn)⟩
  | searched _ _ _ hh hkept =>
      obtain ⟨_, had⟩ := hh.answered
      refine ⟨had.ended.trans (begun_ended c m), fun n hn => ?_⟩
      rw [← begun_kept c m]
      exact hh.kept n (hkept hn)

theorem ended_afterMoves (moves : List Move) : ∀ {c : Client}, c.ended = true →
    (c.afterMoves moves).ended = true := by
  induction moves with
  | nil => exact fun h => h
  | cons m rest ih =>
      intro c h
      refine ih ?_
      rw [(carried_perform c m).ended, h]
      rfl

/-- Nothing is unread, nothing can arrive any more, and only some of these notifications are
kept. -/
structure Drained (kept : List Notification) (c : Client) : Prop where
  ended : c.ended = true
  inbox : c.inbox = []
  kept : c.kept ⊆ kept

section Drained

variable {m : Move}

theorem Drained.ready (h : Drained kept c) (hm : m.arrival.messages = []) :
    Drained kept (c.ready m) :=
  ⟨by simp [Client.ready, deliver, h.ended], by simp [Client.ready, deliver, h.inbox, hm], h.kept⟩

theorem Drained.perform (h : Drained kept c) (hm : m.arrival.messages = []) :
    Drained kept (c.perform m).2 := by
  have hqueue : c.inbox ++ m.arrival.messages = [] := by rw [h.inbox, hm, List.append_nil]
  have hcarried := carried_perform c m
  have hinbox := (perform_advance c m).inbox
  refine ⟨?_, ?_, fun n hn => ?_⟩
  · rw [hcarried.ended, h.ended]
    rfl
  · rw [hqueue] at hinbox
    exact List.suffix_nil.mp hinbox
  · rcases hcarried.kept n hn with hn | ⟨v, hv, -⟩
    · exact h.kept hn
    · rw [hqueue] at hv
      exact absurd hv List.not_mem_nil

theorem Drained.request (h : Drained kept c) (method : String) (params : Json) (limit : Nat) :
    (c.request method params limit {}).1 = .error .exited ∨
      (c.request method params limit {}).1 = .error (.io .brokenPipe) := by
  rcases hrun : c.request method params limit {} with ⟨r, d⟩
  obtain ⟨-, hh⟩ | ⟨rfl, -, -⟩ := request_cases hrun
  · obtain ⟨rfl, -⟩ := hh.of_nil (by rw [h.inbox]; rfl)
    have hended : (c.asked method params).ended = true := h.ended
    rw [ended_deliver hended]
    exact Or.inl rfl
  · exact Or.inr rfl

theorem Drained.wait (h : Drained kept c) (method : String) (accept : Json → Bool) :
    (c.wait method accept {}).1 = .error .exited ∨ ∃ n ∈ kept, fits method accept n = true ∧
      (c.wait method accept {}).1 = .ok (some (n.params.getD .null)) := by
  rcases hrun : c.wait method accept {} with ⟨r, d⟩
  obtain ⟨_, e, hk, rfl, -⟩ | ⟨-, hh⟩ := wait_cases hrun
  · obtain ⟨⟨n, left⟩, hf, he⟩ := Option.map_eq_some_iff.mp hk
    cases he
    obtain ⟨hn, hfits, -⟩ := takeFirst?_mem _ hf
    exact Or.inr ⟨n, h.kept hn, hfits, rfl⟩
  · obtain ⟨rfl, -⟩ := hh.of_nil (by rw [h.inbox]; rfl)
    rw [ended_deliver h.ended]
    exact Or.inl rfl

end Drained

/-- What a turn can still give when only these notifications are left: a request fails, and a wait
fails or finds one of them. -/
structure Lifeless (kept : List Notification) (t : Turn) : Prop where
  request : t.isRequest = true →
    t.result = .error .exited ∨ t.result = .error (.io .brokenPipe)
  wait : ∀ method accept, t.move.operation = .wait method accept →
    t.result = .error .exited ∨ ∃ n ∈ kept, fits method accept n = true ∧
      t.result = .ok (.notification (some (n.params.getD .null)))

theorem Drained.lifeless_turn {m : Move} (h : Drained kept c) (hm : m.arrival.messages = [])
    (after : Client) : Lifeless kept ⟨c, m, (c.perform m).1, after⟩ := by
  have hready := h.ready hm
  obtain ⟨op, a, room⟩ := m
  constructor
  · intro hrequest
    cases op with
    | request method params limit =>
        obtain hrun | hrun := hready.request method params limit
        · exact Or.inl (congrArg (Except.map Yield.answer) hrun)
        · exact Or.inr (congrArg (Except.map Yield.answer) hrun)
    | notify | wait | forget =>
        exact absurd hrequest (by simp [Turn.isRequest, Operation.isRequest])
  · intro method accept hwait
    obtain rfl : op = .wait method accept := hwait
    obtain hrun | ⟨n, hn, hfits, hrun⟩ := hready.wait method accept
    · exact Or.inl (congrArg (Except.map Yield.notification) hrun)
    · exact Or.inr ⟨n, hn, hfits, congrArg (Except.map Yield.notification) hrun⟩

theorem Drained.lifeless (moves : List Move) : ∀ {c : Client}, Drained kept c →
    (∀ m ∈ moves, m.arrival.messages = []) → ∀ t ∈ turns c moves, Lifeless kept t := by
  induction moves with
  | nil => intro c _ _ t ht; exact absurd ht List.not_mem_nil
  | cons m rest ih =>
      intro c h hmoves t ht
      obtain ⟨hm, hrest⟩ := List.forall_mem_cons.mp hmoves
      rw [turns] at ht
      rcases List.mem_cons.mp ht with rfl | ht
      · exact h.lifeless_turn hm _
      · exact ih (h.perform hm) hrest t ht

end Client

/-! ## A session with a dead server -/

namespace Session

open Client (Halts Lifeless Move afterMoves noNotification turns)

variable {s s₁ : Session} {o : Service.Options} {a b : Arrival}

def Call.arrival : Call → Arrival
  | .configure _ a | .prepare a | .complete _ a | .arrive a => a

/-- What arrives while a case runs. -/
def Trial.arrivals (t : Trial) : List Arrival :=
  [t.configuring, t.preparing, t.completing]

theorem ended_run (h : s.client.ended = true) (call : Call) :
    (call.run s).2.client.ended = true := by
  cases call with
  | arrive a => exact Client.ended_deliver h a
  | configure o a =>
      rcases hrun : s.configure o a with ⟨r, t⟩
      simp only [Call.run, hrun]
      cases configure_cases hrun with
      | refused | textless | unsent => exact h
      | @unsettled text u _ _ _ _ _ hu hh | @settled text u _ _ _ _ hu hh =>
          obtain ⟨_, had⟩ := hh.answered
          refine had.ended.trans (Client.ended_deliver ?_ a)
          rw [hu]
          exact h
  | prepare a =>
      rcases hrun : s.prepare a with ⟨r, t⟩
      simp only [Call.run, hrun]
      cases prepare_cases hrun with
      | idle => exact Client.ended_deliver h a
      | waited _ hwait =>
          obtain ⟨_, e, hk, -, rfl⟩ | ⟨-, hh⟩ := Client.wait_cases hwait
          · obtain ⟨_, rfl⟩ := Client.takeKept?_frame hk
            exact Client.ended_deliver h a
          · obtain ⟨_, had⟩ := hh.answered
            exact had.ended.trans (Client.ended_deliver h a)
  | complete q a =>
      rcases hrun : s.complete q a with ⟨r, t⟩
      simp only [Call.run, hrun]
      cases complete_cases hrun with
      | refused => exact h
      | asked _ hh =>
          obtain ⟨_, had⟩ := hh.answered
          exact had.ended.trans (Client.ended_deliver h a)

theorem ended_afterCalls (calls : List Call) : ∀ {s : Session}, s.client.ended = true →
    (afterCalls s calls).client.ended = true := by
  induction calls with
  | nil => exact fun h => h
  | cons call rest ih => exact fun h => ih (ended_run h call)

/-- Why a case cannot be run: the server has gone, it takes nothing any more, or one of these
messages makes no sense. -/
inductive Breakdown (unread : List Json) : ServiceError → Prop
  | exited : Breakdown unread .exited
  | broken : Breakdown unread (.io .brokenPipe)
  | undecodable {m : Json} : m ∈ unread → Message.ofJson? m = none →
      Breakdown unread (.protocol .undecodableMessage)

theorem breakdown_of_configure {text : String} {e : ServiceError} (htext : o.text = some text)
    (h : s.configure o a = (.error e, s₁)) :
    Breakdown (s.client.inbox ++ a.messages) e := by
  generalize hr : (Except.error e : Except ServiceError Unit) = r at h
  cases configure_cases h with
  | refused | unsent =>
      obtain rfl := Except.error.inj hr
      exact .broken
  | textless hnone => exact absurd (htext.symm.trans hnone) (by simp)
  | unsettled _ _ _ _ hh =>
      obtain rfl := Except.error.inj hr
      generalize hx : (Except.error e : Except ServiceError Unit) = x at hh
      generalize hq : s.client.inbox ++ a.messages = queue at hh ⊢
      cases hh with
      | exhausted | picked => exact absurd hx (by simp)
      | undecodable _ hm =>
          obtain rfl := Except.error.inj hx
          exact .undecodable (by simp) hm
      | unanswered =>
          obtain rfl := Except.error.inj hx
          exact .broken
  | settled => exact absurd hr (by simp)

theorem exited_of_prepare (hconf : s.configure o a = (.ok (), s₁)) (hended : s₁.client.ended = true)
    (hb : b.messages = []) : (s₁.prepare b).1 = .error .exited := by
  -- the configuration has forgotten what the wait looks for and has left nothing unread
  have hsettled := settled_of_configure hconf
  have hprepare := hsettled.prepare_eq {} b
  have hwait := hsettled.wait_eq {} b
  have hdeliver : s₁.deliver {} = s₁ := by
    simp [deliver, withClient, Client.deliver]
  rw [hdeliver] at hprepare hwait
  rw [hprepare, hwait, hb]
  show Except.map readinessOf (noNotification (s₁.client.deliver b).ended) = _
  rw [Client.ended_deliver hended]
  rfl

/-- A case that is run when nothing can arrive any more breaks down. -/
theorem breakdown_of_trial {t : Trial} (hended : s.client.ended = true)
    (hsilent : ∀ a ∈ t.arrivals, a.messages = []) :
    ∃ e, (t.run s).1 = .error e ∧ Breakdown s.client.inbox e := by
  have hconfiguring : t.configuring.messages = [] := hsilent _ (by simp [Trial.arrivals])
  have hpreparing : t.preparing.messages = [] := hsilent _ (by simp [Trial.arrivals])
  rcases hconf : s.configure (.ofCase t.case t.settings) t.configuring with ⟨e | _, s₁⟩
  · refine ⟨e, by simp [Trial.run, Service.runCase, Trial.service, hconf], ?_⟩
    have hbreak := breakdown_of_configure rfl hconf
    rwa [hconfiguring, List.append_nil] at hbreak
  · have hended₁ : s₁.client.ended = true := by
      have hrun := ended_run hended (.configure (.ofCase t.case t.settings) t.configuring)
      rwa [Call.run, hconf] at hrun
    have hprep := exited_of_prepare hconf hended₁ hpreparing
    refine ⟨.exited, ?_, .exited⟩
    simp [Trial.run, Service.runCase, Trial.service, hconf, hprep, Except.map]

/-- **A dead server never gives a verdict.**  A stream ends, and what was read before has reached
the client.  However the session stood then, whatever calls it makes from then on and whatever the
server still writes, every case that is run breaks down.  And a client that has taken in everything
unread fails at every further request, and its waits find nothing but notifications that it had
kept by then. -/
theorem dead_server_gives_no_verdict {w : Wire} (hdead : w.release.1.ended = true) :
    (∀ (s : Session) (later : List Call) (t : Trial),
      Wire.Brings w.release.2 (later.map Call.arrival ++ t.arrivals) →
      ∃ e, (t.run (afterCalls (s.deliver w.release.1) later)).1 = .error e ∧
        Breakdown (afterCalls (s.deliver w.release.1) later).client.inbox e) ∧
    (∀ (c : Client) (earlier moves : List Move),
      Wire.Brings w.release.2 ((earlier ++ moves).map Move.arrival) →
      (afterMoves (c.deliver w.release.1) earlier).inbox = [] →
      ∀ turn ∈ turns (afterMoves (c.deliver w.release.1) earlier) moves,
        Lifeless (afterMoves (c.deliver w.release.1) earlier).kept turn) := by
  have hspent := Wire.spent_of_ended hdead
  have ended (c : Client) : (c.deliver w.release.1).ended = true :=
    (Bool.or_eq_true _ _).mpr (Or.inr hdead)
  constructor
  · intro s later t hbrings
    have hsilent := hbrings.silent hspent
    exact breakdown_of_trial (ended_afterCalls later (ended s.client))
      fun a ha => hsilent a (List.mem_append_right _ ha)
  · intro c earlier moves hbrings hdrained
    have hsilent := hbrings.silent hspent
    refine Client.Drained.lifeless moves
      ⟨Client.ended_afterMoves earlier (ended c), hdrained, List.Subset.refl _⟩ fun m hm => ?_
    exact hsilent _ (List.mem_map.mpr ⟨m, List.mem_append_right _ hm, rfl⟩)

/-- A stream that comes to something that is no frame. -/
def brokenWire : Wire where
  inFlight := Text.encode "no frame\n".toList

/-- A session in which everything lies ready for the next case: diagnostics for its text, and a
response with the number of its question. -/
def leftover : Session where
  client :=
    { nextId := 2
      kept := [⟨diagnosticsMethod, some (.obj [("uri", .str "file:///main.ts"),
        ("version", .int 1)])⟩]
      inbox := [echo 2 "a"] }
  rootUri := "file:///"
  options := {}

/-- A case that is run when the server is dead. -/
def late : Trial :=
  { case := plainCase "a", settings := .null
    configuring := Wire.silence, preparing := Wire.silence, completing := Wire.silence }

/-- What lies ready does not help the case.  A bare client is answered once more, by the response
that lies ready; then its inbox is empty, and of its next request and its wait only the wait can
still find something. -/
theorem dead_server_gives_no_verdict_leftover :
    brokenWire.release.1.ended = true ∧
    (∃ e, (late.run (leftover.deliver brokenWire.release.1)).1 = .error e ∧
      Breakdown [echo 2 "a"] e) ∧
    ∀ turn ∈ turns (afterMoves (leftover.client.deliver brokenWire.release.1)
          [⟨.request "shutdown" .null 0, Wire.silence, none⟩])
        [⟨.request "shutdown" .null 0, Wire.silence, none⟩,
          ⟨.wait diagnosticsMethod (fun _ => true), Wire.silence, none⟩],
      Lifeless leftover.client.kept turn := by
  have hdead : brokenWire.release.1.ended = true := rfl
  have hbrings := Wire.Spent.brings 3 (Wire.spent_of_ended hdead)
  obtain ⟨hcase, hclient⟩ := dead_server_gives_no_verdict hdead
  refine ⟨hdead, hcase leftover [] late hbrings, ?_⟩
  exact hclient leftover.client [⟨.request "shutdown" .null 0, Wire.silence, none⟩]
    [⟨.request "shutdown" .null 0, Wire.silence, none⟩,
      ⟨.wait diagnosticsMethod (fun _ => true), Wire.silence, none⟩] hbrings rfl

end Session

end CompletionCheck.Lsp
