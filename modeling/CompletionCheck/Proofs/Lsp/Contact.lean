import CompletionCheck.Proofs.Lsp.Server

/-!
# A session and its server

What a server says in a call depends on what it was sent before, and what it was sent depends on
what it said in earlier calls.  `Serves` follows both through a run: in each call the server is
free to move as in `Server.Moves` over what has been written by then.

`InTouch` is what relates the two states between calls.  The server has handled a part of what was
written, every request has a number below the next one, and nothing in the inbox can be taken for
the response to a request that is still to come.  `InTouch.run` says that a call keeps it, whatever
the server does and whatever the call gives.
-/

namespace CompletionCheck.Lsp.Session

open Client (Halts Answered answersTo)
open Service (Outcome Reply Request)

variable {server : Server} {st st' : Server.State} {s t : Session} {call : Call}

/-- What has been written in a call before anything arrives in it. -/
def Call.heard (s : Session) : Call → List Json
  | .configure o _ => (s.sync o).2.client.written
  | .complete q _ => (s.ask q).2.client.written
  | .prepare _ | .arrive _ => s.client.written

/-- `Serves server st s calls st'`: what arrives in the calls of a session `s` is what a server
says that goes from `st` to `st'`. -/
inductive Serves (server : Server) :
    Server.State → Session → List Call → Server.State → Prop
  | done (st : Server.State) (s : Session) : Serves server st s [] st
  | call {st st' st'' : Server.State} {s : Session} {call : Call} {rest : List Call} :
      server.Moves (call.heard s) s.client.nextId st call.messages st' →
      Serves server st' (call.run s).2 rest st'' → Serves server st s (call :: rest) st''

/-! ## What a call does -/

theorem held_run (s : Session) (call : Call) :
    (call.run s).2.rootUri = s.rootUri ∧ (call.run s).2.options = s.options := by
  by_cases hconf : ∀ o a, call ≠ .configure o a
  · rw [(spared_run s hconf).rest]
    exact ⟨rfl, rfl⟩
  · cases call with
    | prepare | complete | arrive => exact absurd (by simp) hconf
    | configure o a =>
        rcases hrun : s.configure o a with ⟨r, t⟩
        simp only [Call.run, hrun]
        cases configure_cases hrun with
        | refused | textless | unsent => exact ⟨rfl, rfl⟩
        | unsettled _ _ _ hu | settled _ _ _ hu =>
            rw [hu]
            exact ⟨rfl, rfl⟩

theorem options_afterCalls (calls : List Call) : ∀ s : Session,
    (afterCalls s calls).options = s.options := by
  induction calls with
  | nil => intro s; rfl
  | cons call rest ih => intro s; exact (ih _).trans (held_run s call).2

/-! ## The URIs of documents -/

/-- The documents of a session have the URIs of their files. -/
def Named (s : Session) : Prop :=
  ∀ name doc, s.documents.lookup name = some doc → doc.uri = resolveUri s.rootUri name

theorem Named.nextDocument (h : s.Named) (name : String) :
    (s.nextDocument name).uri = resolveUri s.rootUri name := by
  rw [Session.nextDocument]
  cases hold : s.documents.lookup name with
  | none => rfl
  | some old => exact h name old hold

theorem Named.of_uris (h : s.Named) (hroot : t.rootUri = s.rootUri)
    (huris : ∀ name, (t.documents.lookup name).map Document.uri
      = (s.documents.lookup name).map Document.uri) : t.Named := by
  intro name doc hdoc
  have huri := huris name
  rw [hdoc, Option.map_some] at huri
  obtain ⟨old, hold, heq⟩ := Option.map_eq_some_iff.mp huri.symm
  rw [hroot, ← heq]
  exact h name old hold

theorem Named.revised (h : s.Named) (d : Dialect) (text : String) : (s.revised d text).Named := by
  intro name doc hdoc
  rw [Session.revised, lookup_putDocument] at hdoc
  show doc.uri = resolveUri s.rootUri name
  split at hdoc
  · next hname => rw [← Option.some.inj hdoc, hname, h.nextDocument]
  · exact h name doc hdoc

/-- A call keeps the URIs of the documents right, also where it cannot write. -/
theorem Named.run (h : s.Named) (call : Call) : (call.run s).2.Named := by
  by_cases hconf : ∀ o a, call ≠ .configure o a
  · rw [(spared_run s hconf).rest]
    exact h
  · cases call with
    | prepare | complete | arrive => exact absurd (by simp) hconf
    | configure o a =>
        rcases hrun : s.configure o a with ⟨r, t⟩
        simp only [Call.run, hrun]
        have hinformed : (s.informed o.settings).Named := h
        cases configure_cases hrun with
        | refused => exact h
        | textless => exact hinformed
        | unsent _ _ _ huris => exact h.of_uris rfl huris
        | @unsettled text _ _ _ _ _ _ hu | @settled text _ _ _ _ _ hu =>
            rw [hu]
            exact hinformed.revised o.dialect text

/-! ## What a call writes and reads -/

/-- What a call does to a session that can write: `own` are its own messages, and then it answers
what it passes. -/
structure Progress (s : Session) (call : Call) (t : Session) : Prop where
  unlimited : t.client.writesLeft = none
  nextId : s.client.nextId ≤ t.client.nextId
  inbox : t.client.inbox ⊆ s.client.inbox ++ call.messages
  written : ∃ own passed, call.heard s = s.client.written ++ own ∧
    t.client.written = call.heard s ++ answersTo passed ∧
    ∀ v ∈ own, ∀ id, callId? v = some id →
      id = .int s.client.nextId ∧ s.client.nextId < t.client.nextId

theorem callId?_settingsNotice (settings : Json) : callId? (settingsNotice settings) = none :=
  callId?_notificationValue ..

theorem callId?_textMessage (s : Session) (d : Dialect) (text : String) :
    callId? (s.textMessage d text) = none := by
  rw [textMessage]
  cases s.documents.lookup d.fileName <;> exact callId?_notificationValue ..

theorem heard_configure {o : Service.Options} {a : Arrival}
    (h : s.client.writesLeft = none) :
    (Call.configure o a).heard s
      = s.client.written ++ match o.text with
        | none => [settingsNotice o.settings]
        | some text => [settingsNotice o.settings, s.textMessage o.dialect text] := by
  have hinformed : (s.informed o.settings).client.writesLeft = none := by
    simp [informed, withClient, Client.wrote, h]
  rcases hsync : s.sync o with ⟨r, u⟩
  rw [Call.heard, hsync]
  obtain ⟨-, hclosed, -⟩ | ⟨-, ⟨-, htext, rfl⟩ | ⟨text, htext, hsend⟩⟩ := sync_cases hsync
  · exact absurd (h.symm.trans hclosed) (by simp)
  · rw [htext]
    rfl
  · rw [htext]
    obtain ⟨-, -, rfl⟩ | ⟨-, hclosed, -⟩ := syncText_cases hsend
    · exact List.append_assoc ..
    · exact absurd (hinformed.symm.trans hclosed) (by simp)

theorem heard_complete {q : Request} {a : Arrival} (h : s.client.writesLeft = none) :
    (Call.complete q a).heard s = s.client.written ++
      [requestValue s.client.nextId completionMethod (s.askedParams q)] :=
  written_ask (by simp [h])

theorem inbox_subset_of_halts {α : Type} {keeping : Bool} {pick : Message → Option α}
    {atEnd : Bool → Except ServiceError α} {c d : Client} {ms : List Json}
    {r : Except ServiceError α} (h : Halts keeping pick atEnd c ms r d) : d.inbox ⊆ ms := by
  obtain ⟨-, taken, -, hms, -⟩ := h.split
  rw [hms]
  exact List.subset_append_right _ _

theorem progress_sent {o : Service.Options} {a : Arrival} {text : String} {u : Session}
    {r : Except ServiceError Unit} {c : Client} (h : s.client.writesLeft = none)
    (htext : o.text = some text) (hu : u = (s.informed o.settings).revised o.dialect text)
    (hh : Halts true (fun _ => none) (fun _ => .ok ()) (u.client.deliver a)
      (s.client.inbox ++ a.messages) r c) (kept : List Notification) (current : Option String) :
    Progress s (.configure o a) { u with client := { c with kept }, current } := by
  obtain ⟨passed, had⟩ := hh.answered
  have hheard := heard_configure (o := o) (a := a) h
  rw [htext] at hheard
  have hopen : (u.client.deliver a).writesLeft = none := by
    rw [hu]
    simp [informed, revised, withClient, Client.wrote, Client.deliver, h]
  have hnext : (u.client.deliver a).nextId = s.client.nextId := by rw [hu]; rfl
  have hinbox : c.inbox ⊆ s.client.inbox ++ a.messages := inbox_subset_of_halts hh
  refine ⟨had.unlimited hopen, ?_, hinbox,
    ⟨_, passed, hheard, ?_, fun v hv id hid => ?_⟩⟩
  · exact Nat.le_of_eq (had.nextId.trans hnext).symm
  · rw [hheard]
    refine (written_revised hu had.written).trans ?_
    rw [List.append_assoc]
    rfl
  · have hnone : callId? v = none := by
      rcases List.mem_cons.mp hv with rfl | hv
      · exact callId?_settingsNotice _
      · rw [List.mem_singleton.mp hv]
        exact callId?_textMessage s _ _
    rw [hnone] at hid
    exact absurd hid (by simp)

theorem progress_configure (o : Service.Options) (a : Arrival) (h : s.client.writesLeft = none) :
    Progress s (.configure o a) (s.configure o a).2 := by
  have hinformed : (s.informed o.settings).client.writesLeft = none := by
    simp [informed, withClient, Client.wrote, h]
  rcases hrun : s.configure o a with ⟨r, t⟩
  cases configure_cases hrun with
  | refused hclosed => exact absurd (h.symm.trans hclosed) (by simp)
  | unsent _ _ hclosed => exact absurd (hinformed.symm.trans hclosed) (by simp)
  | textless htext =>
      have hheard := heard_configure (o := o) (a := a) h
      rw [htext] at hheard
      refine ⟨hinformed, Nat.le_refl _, List.subset_append_left _ _, ?_⟩
      refine ⟨_, [], hheard, by rw [hheard]; exact (List.append_nil _).symm, fun v hv id hid => ?_⟩
      rw [List.mem_singleton.mp hv, callId?_settingsNotice] at hid
      exact absurd hid (by simp)
  | @unsettled text u e c htext _ _ hu hh => exact progress_sent h htext hu hh c.kept u.current
  | settled htext _ _ hu hh => exact progress_sent h htext hu hh _ _

theorem progress_of_answered {d : Client} (a : Arrival) (passed : List Json)
    (hheard : call.heard s = s.client.written) (h : s.client.writesLeft = none)
    (had : Answered (s.client.deliver a) (answersTo passed) d)
    (hinbox : d.inbox ⊆ s.client.inbox ++ call.messages) : Progress s call (s.withClient d) where
  unlimited := had.unlimited h
  nextId := Nat.le_of_eq had.nextId.symm
  inbox := hinbox
  written := ⟨[], passed, by rw [hheard, List.append_nil], by rw [hheard]; exact had.written,
    fun _ hv => absurd hv List.not_mem_nil⟩

theorem progress_deliver (a : Arrival) (hheard : call.heard s = s.client.written)
    (h : s.client.writesLeft = none) (hmessages : call.messages = a.messages) :
    Progress s call (s.deliver a) := by
  refine progress_of_answered a [] hheard h (.refl (s.client.deliver a)) ?_
  rw [hmessages]
  exact List.Subset.refl _

theorem progress_prepare (a : Arrival) (h : s.client.writesLeft = none) :
    Progress s (.prepare a) (s.prepare a).2 := by
  rcases hrun : s.prepare a with ⟨r, t⟩
  cases prepare_cases hrun with
  | idle => exact progress_deliver a rfl h rfl
  | waited _ hwait =>
      obtain ⟨params, e, hk, -, rfl⟩ | ⟨-, hh⟩ := Client.wait_cases hwait
      · obtain ⟨kept, rfl⟩ := Client.takeKept?_frame hk
        refine progress_of_answered a [] rfl h ?_ (List.Subset.refl _)
        exact Client.answered_kept (s.client.deliver a) kept
      · obtain ⟨passed, had⟩ := hh.answered
        exact progress_of_answered a passed rfl h had (inbox_subset_of_halts hh)

theorem progress_complete (q : Request) (a : Arrival) (h : s.client.writesLeft = none) :
    Progress s (.complete q a) (s.complete q a).2 := by
  rcases hrun : s.complete q a with ⟨r, t⟩
  cases complete_cases hrun with
  | refused hclosed => exact absurd (h.symm.trans hclosed) (by simp)
  | @asked x c hopen hh =>
      obtain ⟨passed, had⟩ := hh.answered
      have hheard := heard_complete (q := q) (a := a) h
      have hinbox : c.inbox ⊆ s.client.inbox ++ a.messages := inbox_subset_of_halts hh
      have hnext : c.nextId = s.client.nextId + 1 := had.nextId
      refine ⟨had.unlimited (by simp [Client.asked, Client.wrote, Client.skipped, Client.deliver, h]),
        ?_, hinbox, ⟨_, passed, hheard, ?_, fun v hv id hid => ?_⟩⟩
      · exact Nat.le_trans (Nat.le_succ _) (Nat.le_of_eq hnext.symm)
      · rw [hheard]
        exact had.written
      · rw [List.mem_singleton.mp hv, callId?_requestValue] at hid
        exact ⟨(Option.some.inj hid).symm, Nat.lt_of_succ_le (Nat.le_of_eq hnext.symm)⟩

theorem progress_run (s : Session) (call : Call) (h : s.client.writesLeft = none) :
    Progress s call (call.run s).2 := by
  cases call with
  | configure o a => exact progress_configure o a h
  | prepare a => exact progress_prepare a h
  | complete q a => exact progress_complete q a h
  | arrive a => exact progress_deliver a rfl h rfl

/-! ## The invariant -/

/-- A message that makes sense and is no response to a request from the number `next` on. -/
def Passable (next : Nat) (m : Json) : Prop :=
  ∃ msg, Message.ofJson? m = some msg ∧
    ∀ id result, msg = .response id result → ∀ n : Nat, next ≤ n → id ≠ .number n

theorem Passable.mono {next later : Nat} {m : Json} (h : Passable next m) (hle : next ≤ later) :
    Passable later m := by
  obtain ⟨msg, hm, hid⟩ := h
  exact ⟨msg, hm, fun id result heq n hn => hid id result heq n (Nat.le_trans hle hn)⟩

/-- Every request among messages has a number below `next`. -/
def NumberedBelow (next : Nat) (ms : List Json) : Prop :=
  ∀ v ∈ ms, ∀ id, callId? v = some id → ∃ n : Nat, n < next ∧ id = .int n

/-- What holds of a session and its server between calls. -/
structure InTouch (server : Server) (st : Server.State) (s : Session) : Prop where
  unlimited : s.client.writesLeft = none
  upright : server.Upright s.client.written st
  numbers : NumberedBelow s.client.nextId s.client.written
  inbox : ∀ m ∈ s.client.inbox, Passable s.client.nextId m
  named : s.Named

theorem ofJson?_int {n : Int} {id : Id} (h : Id.ofJson? (.int n) = some id) : id = .number n := by
  obtain ⟨k, hk, rfl⟩ := Option.map_eq_some_iff.mp h
  rw [Json.signed64?] at hk
  split at hk
  · rw [Option.some.inj hk]
  · exact absurd hk (by simp)

/-- What a server may say to a session cannot be taken for the response to a request that was not
sent to it. -/
theorem passable_of_proper {sent : List Json} {next later : Nat} {m : Json}
    (h : server.Proper sent next m) (hle : next ≤ later) (hsent : NumberedBelow later sent) :
    Passable later m := by
  obtain ⟨msg, hm, hresponse⟩ := h
  refine ⟨msg, hm, fun id result heq n hn => ?_⟩
  rcases hresponse id result heq with ⟨before, v, after, rfl, hv⟩ | hfree
  · obtain ⟨hid, -⟩ := Server.of_response? hv
    obtain ⟨w, hw, hofJson⟩ := Option.bind_eq_some_iff.mp hid
    obtain ⟨k, hk, rfl⟩ := hsent v (by simp) w hw
    rw [ofJson?_int hofJson]
    intro hnumber
    have hkn : (k : Int) = n := Id.number.inj hnumber
    omega
  · exact hfree n (Nat.le_trans hle hn)

theorem NumberedBelow.append {next : Nat} {xs ys : List Json} (hx : NumberedBelow next xs)
    (hy : NumberedBelow next ys) : NumberedBelow next (xs ++ ys) := by
  intro v hv
  rcases List.mem_append.mp hv with hv | hv
  · exact hx v hv
  · exact hy v hv

theorem NumberedBelow.mono {next later : Nat} {ms : List Json} (h : NumberedBelow next ms)
    (hle : next ≤ later) : NumberedBelow later ms := by
  intro v hv id hid
  obtain ⟨n, hn, hn'⟩ := h v hv id hid
  exact ⟨n, Nat.lt_of_lt_of_le hn hle, hn'⟩

theorem numberedBelow_answersTo (next : Nat) (ms : List Json) :
    NumberedBelow next (answersTo ms) := by
  intro v hv id hid
  obtain ⟨rid, rfl⟩ := Client.eq_nullAnswer_of_mem_answersTo hv
  rw [callId?_nullAnswer] at hid
  exact absurd hid (by simp)

theorem Progress.numberedBelow_heard (h : Progress s call t)
    (hs : NumberedBelow s.client.nextId s.client.written) :
    NumberedBelow t.client.nextId (call.heard s) := by
  obtain ⟨own, passed, hheard, -, hown⟩ := h.written
  rw [hheard]
  refine (hs.mono h.nextId).append fun v hv id hid => ?_
  obtain ⟨hid, hlt⟩ := hown v hv id hid
  exact ⟨_, hlt, hid⟩

/-- **A call keeps a session and its server in touch.** -/
theorem InTouch.run (h : InTouch server st s)
    (hm : server.Moves (call.heard s) s.client.nextId st call.messages st') :
    InTouch server st' (call.run s).2 := by
  have hp := progress_run s call h.unlimited
  obtain ⟨own, passed, hheard, hwritten, -⟩ := hp.written
  have hsent := hp.numberedBelow_heard h.numbers
  have hstart : server.Upright (call.heard s) st := by
    rw [hheard]
    exact h.upright.append own
  refine ⟨hp.unlimited, ?_, ?_, fun m hmem => ?_, h.named.run call⟩
  · rw [hwritten]
    exact (hm.upright hstart).append _
  · rw [hwritten]
    exact hsent.append (numberedBelow_answersTo _ _)
  · rcases List.mem_append.mp (hp.inbox hmem) with hmem | hmem
    · exact (h.inbox m hmem).mono hp.nextId
    · exact passable_of_proper (hm.proper hstart m hmem) hp.nextId hsent

theorem InTouch.of_serves {calls : List Call} (h : InTouch server st s)
    (hserves : Serves server st s calls st') : InTouch server st' (afterCalls s calls) := by
  induction hserves with
  | done => exact h
  | call hm _ ih => exact ih (h.run hm)

theorem InTouch.of_connect {cwd : String} {options : Options} {settings : Json} {a : Arrival}
    {c : Client} (h : connect {} cwd options settings a = (.ok s, c))
    (hm : server.Moves (greet {} (Lsp.rootUri cwd options.root) options settings).2.written 1 {}
      a.messages st) :
    InTouch server st s := by
  obtain ⟨result, e, hh, rfl⟩ := connect_cases h
  obtain ⟨passed, had⟩ := hh.answered
  have hinbox : e.inbox ⊆ a.messages := inbox_subset_of_halts hh
  have hnext : e.nextId = 2 := had.nextId
  -- what was written before anything arrived is the first request
  have hgreeting : NumberedBelow 2
      (greet {} (Lsp.rootUri cwd options.root) options settings).2.written := by
    intro v hv id hid
    rw [List.mem_singleton.mp hv, callId?_requestValue] at hid
    exact ⟨1, by omega, (Option.some.inj hid).symm⟩
  have hstart : server.Upright
      (greet {} (Lsp.rootUri cwd options.root) options settings).2.written {} :=
    ⟨Nat.zero_le _, rfl⟩
  have hwritten : (e.wrote (notificationValue "initialized" (.obj []))).written
      = (greet {} (Lsp.rootUri cwd options.root) options settings).2.written
        ++ (answersTo passed ++ [notificationValue "initialized" (.obj [])]) := by
    have hconfirmed : (e.wrote (notificationValue "initialized" (.obj []))).written
        = e.written ++ [notificationValue "initialized" (.obj [])] := rfl
    rw [hconfirmed, had.written, List.append_assoc]
    rfl
  refine ⟨?_, ?_, ?_, fun m hmem => ?_, fun name doc hdoc => absurd hdoc (by simp)⟩
  · have hopen : e.writesLeft = none := had.unlimited rfl
    simp [Client.wrote, hopen]
  · rw [hwritten]
    exact (hm.upright hstart).append _
  · rw [hwritten, show (e.wrote (notificationValue "initialized" (.obj []))).nextId = 2 from hnext]
    refine hgreeting.append ((numberedBelow_answersTo _ _).append fun v hv id hid => ?_)
    rw [List.mem_singleton.mp hv, callId?_notificationValue] at hid
    exact absurd hid (by simp)
  · rw [show (e.wrote (notificationValue "initialized" (.obj []))).nextId = 2 from hnext]
    exact passable_of_proper (hm.proper hstart m (hinbox hmem)) (by omega) hgreeting

end CompletionCheck.Lsp.Session
