import CompletionCheck.Proofs.Lsp.Operations

/-!
# What the operations of a session can do

Each operation of a session has a few exits, and the session that comes out differs from exit to
exit: a configuration can fail before its text is sent, while it is sent, and after it was sent.
`Configures`, `Prepares` and `Completes` list the exits, with everything that is known at each of
them, as `Connects` and `Closes` do for its beginning and its end.  Nothing after this module looks
into the operations again.
-/

namespace CompletionCheck.Lsp.Session

open Client (Halts pickResponse noResponse)
open Service (Outcome Reply Request)

/-! ## What is written -/

def settingsNotice (settings : Json) : Json :=
  notificationValue "workspace/didChangeConfiguration" (.ofMembers [("settings", settings)])

def openMessage (uri : String) (d : Dialect) (text : String) : Json :=
  notificationValue "textDocument/didOpen" (openParams uri d text)

def changeMessage (uri : String) (version : Nat) (text : String) : Json :=
  notificationValue "textDocument/didChange" (changeParams uri version text)

/-- The document that the next text of a file makes. -/
def nextDocument (s : Session) (name : String) : Document :=
  match s.documents.lookup name with
  | some doc => { doc with version := doc.version + 1 }
  | none => ⟨resolveUri s.rootUri name, 1⟩

/-- The message that sends the next text of a dialect's file. -/
def textMessage (s : Session) (d : Dialect) (text : String) : Json :=
  match s.documents.lookup d.fileName with
  | some doc => changeMessage doc.uri (doc.version + 1) text
  | none => openMessage (resolveUri s.rootUri d.fileName) d text

def informed (s : Session) (settings : Json) : Session :=
  s.withClient (s.client.wrote (settingsNotice settings))

def revised (s : Session) (d : Dialect) (text : String) : Session :=
  { s with
    documents := putDocument d.fileName (s.nextDocument d.fileName) s.documents
    client := s.client.wrote (s.textMessage d text) }

/-! ## Documents -/

theorem lookup_putDocument (name key : String) (d : Document) (ds : List (String × Document)) :
    (putDocument name d ds).lookup key = if key = name then some d else ds.lookup key := by
  induction ds with
  | nil => rw [putDocument, Json.lookup_cons_ite]
  | cons e rest ih =>
      obtain ⟨n, e⟩ := e
      rw [putDocument]
      split
      · next hn =>
          rw [Json.lookup_cons_ite, Json.lookup_cons_ite, hn]
          by_cases hk : key = name <;> simp [hk]
      · next hn =>
          rw [Json.lookup_cons_ite, Json.lookup_cons_ite, ih]
          by_cases hk : key = n
          · simp [hk, hn]
          · simp [hk]

/-! ## Configuring -/

theorem syncText_of_ok {s : Session} {d : Dialect} {text : String} {c : Client}
    (hw : s.client.write (s.textMessage d text) = (.ok (), c)) :
    s.syncText d text = (.ok (s.nextDocument d.fileName).uri,
      { s with
        documents := putDocument d.fileName (s.nextDocument d.fileName) s.documents
        client := c }) := by
  unfold syncText
  cases hdoc : s.documents.lookup d.fileName with
  | some doc =>
      simp only [textMessage, hdoc, changeMessage] at hw
      simp only [Client.notify, hw, nextDocument, hdoc]
      rfl
  | none =>
      simp only [textMessage, hdoc, openMessage] at hw
      simp only [Client.notify, hw, nextDocument, hdoc]

/-- The version of an open document is raised even when the message cannot be written; its URI
stays. -/
theorem syncText_of_error {s : Session} {d : Dialect} {text : String} {e : ServiceError}
    {c : Client} (hw : s.client.write (s.textMessage d text) = (.error e, c)) :
    ∃ documents, s.syncText d text = (.error e, { s with documents, client := c }) ∧
      ∀ name, (documents.lookup name).map Document.uri
        = (s.documents.lookup name).map Document.uri := by
  unfold syncText
  cases hdoc : s.documents.lookup d.fileName with
  | some doc =>
      simp only [textMessage, hdoc, changeMessage] at hw
      simp only [hdoc, Client.notify, hw]
      refine ⟨_, rfl, fun name => ?_⟩
      rw [lookup_putDocument]
      by_cases hname : name = d.fileName <;> simp [hname, hdoc]
  | none =>
      simp only [textMessage, hdoc, openMessage] at hw
      simp only [hdoc, Client.notify, hw]
      exact ⟨s.documents, rfl, fun _ => rfl⟩

theorem syncText_cases {s s' : Session} {d : Dialect} {text : String}
    {r : Except ServiceError String} (h : s.syncText d text = (r, s')) :
    (r = .ok (s.nextDocument d.fileName).uri ∧ s.client.writesLeft ≠ some 0 ∧
        s' = s.revised d text) ∨
      (r = .error (.io .brokenPipe) ∧ s.client.writesLeft = some 0 ∧
        ∃ documents, s' = { s with documents } ∧
          ∀ name, (documents.lookup name).map Document.uri
            = (s.documents.lookup name).map Document.uri) := by
  rcases hw : s.client.write (s.textMessage d text) with ⟨r', c⟩
  obtain ⟨rfl, hopen, rfl⟩ | ⟨rfl, hclosed, rfl⟩ := Client.write_cases hw
  · rw [syncText_of_ok hw] at h
    cases h
    exact Or.inl ⟨rfl, hopen, rfl⟩
  · obtain ⟨documents, heq, huris⟩ := syncText_of_error hw
    rw [heq] at h
    cases h
    exact Or.inr ⟨rfl, hclosed, documents, rfl, huris⟩

theorem sync_cases {s s' : Session} {o : Service.Options} {r : Except ServiceError String}
    (h : s.sync o = (r, s')) :
    (r = .error (.io .brokenPipe) ∧ s.client.writesLeft = some 0 ∧ s' = s) ∨
      (s.client.writesLeft ≠ some 0 ∧
        ((r = .error (.protocol (.noSource o.fileName)) ∧ o.text = none ∧
            s' = s.informed o.settings) ∨
          ∃ text, o.text = some text ∧
            (s.informed o.settings).syncText o.dialect text = (r, s'))) := by
  unfold sync at h
  rcases hset : s.client.notify "workspace/didChangeConfiguration"
    (.ofMembers [("settings", o.settings)]) with ⟨x | _, c⟩
  · rw [hset] at h
    cases h
    obtain ⟨hr, -⟩ | ⟨hr, hclosed, rfl⟩ := Client.write_cases hset
    · exact absurd hr (by simp)
    · obtain rfl := Except.error.inj hr
      exact Or.inl ⟨rfl, hclosed, rfl⟩
  · rw [hset] at h
    obtain ⟨-, hopen, rfl⟩ | ⟨hr, -⟩ := Client.write_cases hset
    · refine Or.inr ⟨hopen, ?_⟩
      cases htext : o.text with
      | none =>
          simp only [htext] at h
          cases h
          exact Or.inl ⟨rfl, rfl, rfl⟩
      | some text =>
          simp only [htext] at h
          exact Or.inr ⟨text, rfl, h⟩
    · exact absurd hr (by simp)

theorem settle_cases {s s' : Session} {file uri : String} {r : Except ServiceError Unit}
    (h : s.settle file uri = (r, s')) :
    ∃ c, Halts true (fun _ => none) (fun _ => .ok ()) s.client s.client.inbox r c ∧
      ((∃ e, r = .error e ∧ s' = s.withClient c) ∨
        (r = .ok () ∧ s' = { s with
          client := { c with
            kept := c.kept.filter fun n => !Client.fits diagnosticsMethod (isAbout uri) n }
          current := some file })) := by
  unfold settle at h
  rcases hforget : s.client.forget diagnosticsMethod (isAbout uri) with ⟨x | u, d⟩
  · rw [hforget] at h
    cases h
    obtain ⟨c, hh, ⟨_, -, rfl⟩ | ⟨hr, -⟩⟩ := Client.forget_cases hforget
    · exact ⟨_, hh, Or.inl ⟨x, rfl, rfl⟩⟩
    · exact absurd hr (by simp)
  · rw [hforget] at h
    cases h
    obtain ⟨c, hh, ⟨_, hr, -⟩ | ⟨-, rfl⟩⟩ := Client.forget_cases hforget
    · exact absurd hr (by simp)
    · exact ⟨c, hh, Or.inr ⟨rfl, rfl⟩⟩

/-- The exits of a configuration, in the order of its steps: the settings are sent before the text
is looked for, and the text before the inbox is. -/
inductive Configures (s : Session) (o : Service.Options) (a : Arrival) :
    Except ServiceError Unit → Session → Prop
  /-- The settings cannot be written. -/
  | refused : s.client.writesLeft = some 0 → Configures s o a (.error (.io .brokenPipe)) s
  /-- There is no text. -/
  | textless : o.text = none → s.client.writesLeft ≠ some 0 →
      Configures s o a (.error (.protocol (.noSource o.fileName))) (s.informed o.settings)
  /-- The text cannot be written. -/
  | unsent {text : String} {documents : List (String × Document)} :
      o.text = some text → s.client.writesLeft ≠ some 0 →
      (s.informed o.settings).client.writesLeft = some 0 →
      (∀ name, (documents.lookup name).map Document.uri
        = (s.documents.lookup name).map Document.uri) →
      Configures s o a (.error (.io .brokenPipe)) { s.informed o.settings with documents }
  /-- The text was sent, and taking in what has arrived failed. -/
  | unsettled {text : String} {t : Session} {e : ServiceError} {c : Client} :
      o.text = some text → s.client.writesLeft ≠ some 0 →
      (s.informed o.settings).client.writesLeft ≠ some 0 →
      t = (s.informed o.settings).revised o.dialect text →
      Halts true (fun _ => none) (fun _ => .ok ()) (t.client.deliver a)
        (s.client.inbox ++ a.messages) (.error e) c →
      Configures s o a (.error e) (t.withClient c)
  /-- The text was sent, and what has arrived was taken in. -/
  | settled {text : String} {t : Session} {c : Client} :
      o.text = some text → s.client.writesLeft ≠ some 0 →
      (s.informed o.settings).client.writesLeft ≠ some 0 →
      t = (s.informed o.settings).revised o.dialect text →
      Halts true (fun _ => none) (fun _ => .ok ()) (t.client.deliver a)
        (s.client.inbox ++ a.messages) (.ok ()) c →
      Configures s o a (.ok ())
        { t with
          client := { c with
            kept := c.kept.filter fun n =>
              !Client.fits diagnosticsMethod (isAbout (s.nextDocument o.fileName).uri) n }
          current := some o.fileName }

theorem configure_cases {s s' : Session} {o : Service.Options} {a : Arrival}
    {r : Except ServiceError Unit} (h : s.configure o a = (r, s')) : Configures s o a r s' := by
  unfold configure at h
  rcases hsync : s.sync o with ⟨x | uri, t⟩
  · rw [hsync] at h
    cases h
    obtain ⟨hr, hclosed, rfl⟩ | ⟨hopen, ⟨hr, htext, rfl⟩ | ⟨text, htext, hsend⟩⟩ :=
      sync_cases hsync
    · obtain rfl := Except.error.inj hr
      exact .refused hclosed
    · obtain rfl := Except.error.inj hr
      exact .textless htext hopen
    · obtain ⟨hr, -⟩ | ⟨hr, hclosed, documents, rfl, huris⟩ := syncText_cases hsend
      · exact absurd hr (by simp)
      · obtain rfl := Except.error.inj hr
        exact .unsent htext hopen hclosed huris
  · rw [hsync] at h
    obtain ⟨hr, -⟩ | ⟨hopen, ⟨hr, -⟩ | ⟨text, htext, hsend⟩⟩ := sync_cases hsync
    · exact absurd hr (by simp)
    · exact absurd hr (by simp)
    · obtain ⟨hr, hopen', ht⟩ | ⟨hr, -⟩ := syncText_cases hsend
      · obtain rfl := Except.ok.inj hr
        obtain ⟨c, hh, hs'⟩ := settle_cases h
        have hinbox : (t.deliver a).client.inbox = s.client.inbox ++ a.messages := by
          rw [ht]; rfl
        rw [hinbox] at hh
        obtain ⟨e, rfl, rfl⟩ | ⟨rfl, rfl⟩ := hs'
        · exact .unsettled (t := t) htext hopen hopen' ht hh
        · exact .settled (t := t) htext hopen hopen' ht hh
      · exact absurd hr (by simp)

/-! ## Preparing -/

/-- What the result of a wait says about the server. -/
def readinessOf : Option Json → Readiness
  | some _ => .ready
  | none => .silent

/-- The exits of a preparation. -/
inductive Prepares (s : Session) (a : Arrival) : Except ServiceError Readiness → Session → Prop
  /-- There is no current document. -/
  | idle : s.currentDocument? = none → Prepares s a (.ok .ready) (s.deliver a)
  /-- The session has waited for diagnostics about the current document. -/
  | waited {d : Document} {r : Except ServiceError (Option Json)} {c : Client} :
      s.currentDocument? = some d → s.client.wait diagnosticsMethod (shows d) a = (r, c) →
      Prepares s a (r.map readinessOf) (s.withClient c)

theorem prepare_cases {s s' : Session} {a : Arrival} {r : Except ServiceError Readiness}
    (h : s.prepare a = (r, s')) : Prepares s a r s' := by
  unfold prepare at h
  cases hcur : s.currentDocument? with
  | none =>
      simp only [hcur] at h
      cases h
      exact .idle hcur
  | some d =>
      simp only [hcur] at h
      rcases hwait : s.client.wait diagnosticsMethod (shows d) a with ⟨_ | _ | _, c⟩
      all_goals
        rw [hwait] at h
        cases h
        exact .waited hcur hwait

/-! ## Completing -/

def askedParams (s : Session) (r : Request) : Json :=
  completionParams (resolveUri s.rootUri r.fileName) (Position.ofOffset r.text.toList r.cursor)

theorem ask_cases {s s' : Session} {q : Request} {r : Except ServiceError Nat}
    (h : s.ask q = (r, s')) :
    (r = .ok s.client.nextId ∧ s.client.writesLeft ≠ some 0 ∧
        s' = s.withClient (s.client.asked completionMethod (s.askedParams q))) ∨
      (r = .error (.io .brokenPipe) ∧ s.client.writesLeft = some 0 ∧
        s' = s.withClient s.client.skipped) := by
  simp only [ask] at h
  rcases hsend : s.client.send completionMethod (s.askedParams q) with ⟨x | id, c⟩
  all_goals
    rw [askedParams] at hsend
    rw [hsend] at h
    cases h
  · obtain ⟨hr, -⟩ | ⟨hr, hclosed, rfl⟩ := Client.send_cases hsend
    · exact absurd hr (by simp)
    · exact Or.inr ⟨by rw [Except.error.inj hr], hclosed, rfl⟩
  · obtain ⟨hr, hopen, rfl⟩ | ⟨hr, -⟩ := Client.send_cases hsend
    · exact Or.inl ⟨by rw [Except.ok.inj hr], hopen, rfl⟩
    · exact absurd hr (by simp)

theorem written_ask {s : Session} {q : Request} (hopen : s.client.writesLeft ≠ some 0) :
    (s.ask q).2.client.written = s.client.written ++
      [requestValue s.client.nextId completionMethod (s.askedParams q)] := by
  rcases hask : s.ask q with ⟨r, t⟩
  obtain ⟨-, -, rfl⟩ | ⟨-, hclosed, -⟩ := ask_cases hask
  · rfl
  · exact absurd hclosed hopen

/-- The exits of a question. -/
inductive Completes (s : Session) (q : Request) (a : Arrival) :
    Except ServiceError Reply → Session → Prop
  /-- The question cannot be written. -/
  | refused : s.client.writesLeft = some 0 →
      Completes s q a (.error (.io .brokenPipe)) (s.withClient s.client.skipped)
  /-- The question was asked, and the session has waited for the answer. -/
  | asked {r : Except ServiceError (Except RpcError Json)} {c : Client} :
      s.client.writesLeft ≠ some 0 →
      Halts true (pickResponse s.client.nextId) (noResponse completionMethod s.options.requestLimit)
        ((s.client.asked completionMethod (s.askedParams q)).deliver a)
        (s.client.inbox ++ a.messages) r c →
      Completes s q a (r.bind (replyOf s.options.names)) (s.withClient c)

theorem complete_cases {s s' : Session} {q : Request} {a : Arrival}
    {r : Except ServiceError Reply} (h : s.complete q a = (r, s')) : Completes s q a r s' := by
  unfold complete at h
  rcases hask : s.ask q with ⟨x | id, t⟩
  · rw [hask] at h
    cases h
    obtain ⟨hr, -⟩ | ⟨hr, hclosed, rfl⟩ := ask_cases hask
    · exact absurd hr (by simp)
    · obtain rfl := Except.error.inj hr
      exact .refused hclosed
  · rw [hask] at h
    obtain ⟨hr, hopen, rfl⟩ | ⟨hr, -⟩ := ask_cases hask
    · obtain rfl := Except.ok.inj hr
      simp only [awaitReply] at h
      split at h
      all_goals
        next hwait =>
          cases h
          exact .asked hopen (Client.awaitResponse_halts hwait)
    · exact absurd hr (by simp)

/-! ## Connecting -/

def initializedNotice : Json := notificationValue "initialized" (.obj [])

/-- What comes of the first request, when it can be written. -/
def Greets (c : Client) (cwd : String) (options : Options) (settings : Json) (a : Arrival) :
    Except ServiceError (Except RpcError Json) → Client → Prop :=
  c.Asks "initialize" (greetingParams (Lsp.rootUri cwd options.root) options settings)
    options.requestLimit a

/-- The exits of connecting.  There is a session in the last of them only. -/
inductive Connects (c : Client) (cwd : String) (options : Options) (settings : Json)
    (a : Arrival) : Except ServiceError Session → Client → Prop
  /-- The first request cannot be written. -/
  | unsent : c.writesLeft = some 0 →
      Connects c cwd options settings a (.error (.io .brokenPipe)) c.skipped
  /-- The first request is not answered. -/
  | unanswered {x : ServiceError} {e : Client} : Greets c cwd options settings a (.error x) e →
      Connects c cwd options settings a (.error x) e
  /-- The server refuses. -/
  | rejected {x : RpcError} {e : Client} : Greets c cwd options settings a (.ok (.error x)) e →
      Connects c cwd options settings a (.error (.protocol (.initializeRefused x.text))) e
  /-- The confirmation cannot be written. -/
  | unconfirmed {result : Json} {e : Client} :
      Greets c cwd options settings a (.ok (.ok result)) e → e.writesLeft = some 0 →
      Connects c cwd options settings a (.error (.io .brokenPipe)) e
  /-- The session begins. -/
  | begun {result : Json} {e : Client} : Greets c cwd options settings a (.ok (.ok result)) e →
      Connects c cwd options settings a
        (.ok { client := e.wrote initializedNotice
               rootUri := Lsp.rootUri cwd options.root, options })
        (e.wrote initializedNotice)

theorem connect_exits {c d : Client} {cwd : String} {options : Options} {settings : Json}
    {a : Arrival} {r : Except ServiceError Session}
    (h : connect c cwd options settings a = (r, d)) : Connects c cwd options settings a r d := by
  simp only [connect, greet] at h
  rcases hsend : c.send "initialize"
    (greetingParams (Lsp.rootUri cwd options.root) options settings) with ⟨x | id, c'⟩
  · rw [hsend] at h
    cases h
    obtain ⟨hr, -⟩ | ⟨hr, hclosed, rfl⟩ := Client.send_cases hsend
    · exact absurd hr (by simp)
    · obtain rfl := Except.error.inj hr
      exact .unsent hclosed
  · rw [hsend] at h
    obtain ⟨hr, -, rfl⟩ | ⟨hr, -⟩ := Client.send_cases hsend
    · obtain rfl := Except.ok.inj hr
      simp only [welcome] at h
      split at h
      · next hwait => cases h; exact .unanswered (Client.awaitResponse_halts hwait)
      · next hwait => cases h; exact .rejected (Client.awaitResponse_halts hwait)
      · next result e hwait =>
          have hh := Client.awaitResponse_halts hwait
          split at h
          · next hnote =>
              obtain ⟨hr, -⟩ | ⟨hr, hclosed, rfl⟩ := Client.write_cases hnote
              · exact absurd hr (by simp)
              · cases h
                obtain rfl := Except.error.inj hr
                exact .unconfirmed hh hclosed
          · next hnote =>
              obtain ⟨-, -, rfl⟩ | ⟨hr, -⟩ := Client.write_cases hnote
              · cases h
                exact .begun hh
              · exact absurd hr (by simp)
    · exact absurd hr (by simp)

/-- A session that begins has asked the server to initialize, was answered, and has confirmed
it. -/
theorem connect_cases {c d : Client} {cwd : String} {options : Options} {settings : Json}
    {a : Arrival} {s : Session}
    (h : connect c cwd options settings a = (.ok s, d)) :
    ∃ result e,
      Halts true (pickResponse c.nextId) (noResponse "initialize" options.requestLimit)
        ((c.asked "initialize"
          (greetingParams (Lsp.rootUri cwd options.root) options settings)).deliver a)
        (c.inbox ++ a.messages) (.ok (.ok result)) e ∧
      s = { client := e.wrote (notificationValue "initialized" (.obj []))
            rootUri := Lsp.rootUri cwd options.root, options } := by
  cases connect_exits h with
  | begun hh => exact ⟨_, _, hh, rfl⟩

/-! ## Closing -/

def shutdownRequest (n : Nat) : Json := requestValue n "shutdown" .null

def exitNotice : Json := notificationValue "exit" .null

/-- The exits of closing a session.  A server that refuses to shut down is left as one that agrees
is. -/
inductive Closes (c : Client) (limit : Nat) (a : Arrival) :
    Except ServiceError Unit → Client → Prop
  /-- The request to shut down cannot be written. -/
  | unsent : c.writesLeft = some 0 → Closes c limit a (.error (.io .brokenPipe)) c.skipped
  /-- The request to shut down is not answered. -/
  | unanswered {x : ServiceError} {e : Client} : c.Asks "shutdown" .null limit a (.error x) e →
      Closes c limit a (.error x) e
  /-- The server has answered, one way or the other, and is left. -/
  | left {result : Except RpcError Json} {e d : Client} {r : Except ServiceError Unit} :
      c.Asks "shutdown" .null limit a (.ok result) e → e.write exitNotice = (r, d) →
      Closes c limit a r d

theorem shutdown_cases {c d : Client} {limit : Nat} {a : Arrival} {r : Except ServiceError Unit}
    (h : (shutdown c limit a).1 = (r, d)) : Closes c limit a r d := by
  unfold shutdown at h
  rcases hsend : c.send "shutdown" .null with ⟨x | id, c'⟩
  · rw [hsend] at h
    cases h
    obtain ⟨hr, -⟩ | ⟨hr, hclosed, rfl⟩ := Client.send_cases hsend
    · exact absurd hr (by simp)
    · obtain rfl := Except.error.inj hr
      exact .unsent hclosed
  · rw [hsend] at h
    obtain ⟨hr, -, rfl⟩ | ⟨hr, -⟩ := Client.send_cases hsend
    · obtain rfl := Except.ok.inj hr
      simp only [takeLeave] at h
      split at h
      · next hwait => cases h; exact .unanswered (Client.awaitResponse_halts hwait)
      · next hwait => exact .left (Client.awaitResponse_halts hwait) h
      · next hwait => exact .left (Client.awaitResponse_halts hwait) h
    · exact absurd hr (by simp)

end CompletionCheck.Lsp.Session
