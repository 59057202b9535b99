import CompletionCheck.Proofs.Lsp.Contact
import CompletionCheck.Proofs.Lsp.Readiness
import CompletionCheck.Service.Run

/-!
# A session refines the service that it stands for

To the cases that it runs, a session should look like a service that has no state at all: it looks
at the text and the place of a question and says what the server offers there.  In between stand
documents and their versions, notifications kept, messages unread, requests whose responses are
still on their way, and whatever else the server says.

`session_refines_service` says that nothing of this shows.  In every sequence of cases that run on
one session, a case whose question is answered gets the verdict that the server's offer for its
text and its cursor deserves; and no case ever gets another verdict, so that a verdict never
depends on the cases before.
-/

namespace CompletionCheck.Lsp

open Fixture (TestCase)
open Service (Outcome Reply Request Verdict)

namespace Server

/-- What a server says about a question, as a service says it. -/
def reply (server : Server) (names : NameFields) (q : Request) : Reply :=
  match server.offer q.text (Position.ofOffset q.text.toList q.cursor) with
  | .error e => .failed e.message
  | .ok offer => .completions (offer.items.map names.candidate)

/-- The verdict that a case deserves: that of the items that the server offers at the cursor, in
their order, or the failure that it reports there. -/
def verdict (server : Server) (names : NameFields) (c : TestCase) : Verdict :=
  match server.offer c.text (Position.ofOffset c.text.toList c.cursor) with
  | .error e => .fail (.crashed e.message)
  | .ok offer =>
    match validate c (offer.items.map names.candidate) with
    | none => .pass
    | some violation => .fail (.violation violation)

theorem verdict_reply (server : Server) (names : NameFields) (c : TestCase) :
    Service.verdict c (server.reply names (.ofCase c)) = server.verdict names c := by
  rw [reply, verdict]
  simp only [Request.ofCase]
  cases server.offer c.text (Position.ofOffset c.text.toList c.cursor) with
  | error e => rfl
  | ok offer => rfl

theorem replyOf_offer (server : Server) (names : NameFields) (q : Request) :
    Session.replyOf names
      ((server.offer q.text (Position.ofOffset q.text.toList q.cursor)).map Offer.result)
        = .ok (server.reply names q) := by
  rw [reply]
  cases server.offer q.text (Position.ofOffset q.text.toList q.cursor) with
  | error e => rfl
  | ok offer =>
      simp [Except.map, Session.replyOf, NameFields.candidates?, Offer.listOfJson?_result]

end Server

namespace Session

open Client (Halts pickResponse noResponse)

variable {server : Server} {st st' : Server.State} {s t : Session}

/-! ## A question -/

/-- The document that a question is about has the text that the question is about. -/
def TextReady (server : Server) (s : Session) (q : Request) : Prop :=
  (server.after s.client.written).texts (resolveUri s.rootUri q.fileName) = some q.text

/-- A request that is asked for among messages, of which only the last has this number, is the
last one. -/
theorem eq_of_append_concat {next : Nat} {ms before after : List Json} {v w : Json}
    (hms : NumberedBelow next ms) (hv : (callId? v).bind Id.ofJson? = some (.number next))
    (h : ms ++ [w] = before ++ v :: after) : before = ms ∧ v = w := by
  rcases List.eq_nil_or_concat after with rfl | ⟨rest, x, rfl⟩
  · obtain ⟨hbefore, hlast⟩ := List.append_inj' h rfl
    exact ⟨hbefore.symm, (List.cons.inj hlast).1.symm⟩
  · exfalso
    have hconcat : ms ++ [w] = (before ++ v :: rest) ++ [x] := by simpa using h
    obtain ⟨hrest, -⟩ := List.append_inj' hconcat rfl
    obtain ⟨id, hid, hofJson⟩ := Option.bind_eq_some_iff.mp hv
    obtain ⟨n, hn, rfl⟩ := hms v (by rw [hrest]; simp) id hid
    have hnext : (next : Int) = n := Id.number.inj (ofJson?_int hofJson)
    omega

theorem result_of_proper {q : Request} {m : Json} {result : Except RpcError Json}
    (hs : NumberedBelow s.client.nextId s.client.written) (htext : TextReady server s q)
    (hm : server.Proper (s.client.written ++
      [requestValue s.client.nextId completionMethod (s.askedParams q)]) s.client.nextId m)
    (hresponse : Message.ofJson? m = some (.response (.number s.client.nextId) result)) :
    result = (server.offer q.text (Position.ofOffset q.text.toList q.cursor)).map
      Offer.result := by
  obtain ⟨msg, hmsg, hproper⟩ := hm
  rw [hresponse] at hmsg
  obtain rfl := Option.some.inj hmsg
  rcases hproper _ _ rfl with ⟨before, v, after, hsent, hv⟩ | hfree
  · obtain ⟨hid, hresult⟩ := Server.of_response? hv
    obtain ⟨rfl, rfl⟩ := eq_of_append_concat hs hid hsent
    exact Option.some.inj (hresult.symm.trans (Server.resultOf?_question htext))
  · exact absurd rfl (hfree s.client.nextId (Nat.le_refl _))

/-- A response to the question that is asked next is among the messages that arrive in it. -/
def AnsweredIn (s : Session) (a : Arrival) : Prop :=
  ∃ m ∈ a.messages, ∃ result,
    Message.ofJson? m = some (.response (.number s.client.nextId) result)

section Question

variable {q : Request} {a : Arrival} {limit : Nat} {c d : Client}
  {x : Except ServiceError (Except RpcError Json)}

theorem picked_of_question {result : Except RpcError Json} (h : InTouch server st s)
    (htext : TextReady server s q)
    (hproper : ∀ m ∈ a.messages, server.Proper (s.client.written ++
      [requestValue s.client.nextId completionMethod (s.askedParams q)]) s.client.nextId m)
    (hh : Halts true (pickResponse s.client.nextId) (noResponse completionMethod limit) c
      (s.client.inbox ++ a.messages) x d) (hx : x = .ok result) :
    result = (server.offer q.text (Position.ofOffset q.text.toList q.cursor)).map
      Offer.result := by
  obtain ⟨m, hmem, msg, hmsg, hpick⟩ := hh.of_ok hx (by simp [noResponse])
  obtain rfl := Client.pickResponse_eq_some hpick
  rcases List.mem_append.mp hmem with hmem | hmem
  · -- what was unread when the question was asked cannot be taken for its response
    obtain ⟨other, hother, hfree⟩ := h.inbox m hmem
    obtain rfl := Option.some.inj (hmsg.symm.trans hother)
    exact absurd rfl (hfree _ _ rfl s.client.nextId (Nat.le_refl _))
  · exact result_of_proper h.numbers htext (hproper m hmem) hmsg

theorem found_of_answered {sent : List Json} (h : InTouch server st s) (hopen : c.writesLeft = none)
    (hproper : ∀ m ∈ a.messages, server.Proper sent s.client.nextId m)
    (hh : Halts true (pickResponse s.client.nextId) (noResponse completionMethod limit) c
      (s.client.inbox ++ a.messages) x d) (hanswered : AnsweredIn s a) :
    ∃ result, x = .ok result := by
  obtain ⟨m, hmem, result, hresponse⟩ := hanswered
  refine hh.ok_of_pick hopen (fun m hmem => ?_)
    ⟨m, List.mem_append_right _ hmem, _, hresponse, by simp [pickResponse]⟩
  rcases List.mem_append.mp hmem with hmem | hmem
  · obtain ⟨msg, hmsg, -⟩ := h.inbox m hmem
    exact ⟨msg, hmsg⟩
  · obtain ⟨msg, hmsg, -⟩ := hproper m hmem
    exact ⟨msg, hmsg⟩

/-- A question about a text that the server has: a reply is always what the server offers, and
there is one when a response arrives. -/
theorem reply_of_complete (h : InTouch server st s) (htext : TextReady server s q)
    (hm : server.Moves ((Call.complete q a).heard s) s.client.nextId st a.messages st') :
    (∀ reply, (s.complete q a).1 = .ok reply → reply = server.reply s.options.names q) ∧
      (AnsweredIn s a → (s.complete q a).1 = .ok (server.reply s.options.names q)) := by
  rw [heard_complete h.unlimited] at hm
  have hproper := hm.proper (h.upright.append _)
  rcases hrun : s.complete q a with ⟨r, t⟩
  cases complete_cases hrun with
  | refused hclosed => exact absurd (h.unlimited.symm.trans hclosed) (by simp)
  | @asked x c hopen hh =>
      refine ⟨fun reply hreply => ?_, fun hanswered => ?_⟩
      · cases x with
        | error e => exact absurd hreply (by simp [Except.bind])
        | ok result =>
            rw [picked_of_question h htext hproper hh rfl] at hreply
            exact Except.ok.inj (hreply.symm.trans (server.replyOf_offer _ _))
      · have hunlimited : ((s.client.asked completionMethod (s.askedParams q)).deliver a).writesLeft
            = none := by
          simp [Client.asked, Client.wrote, Client.skipped, Client.deliver, h.unlimited]
        obtain ⟨result, rfl⟩ := found_of_answered h hunlimited hproper hh hanswered
        rw [picked_of_question h htext hproper hh rfl]
        exact server.replyOf_offer _ _

end Question

/-- After a configuration with a text and a preparation the server has, or is about to have, this
text. -/
theorem textReady_of_configure {o : Service.Options} {a b : Arrival} {text : String} {q : Request}
    {u : Session} {r : Except ServiceError Readiness} (h : InTouch server st s)
    (htext : o.text = some text) (hconf : s.configure o a = (.ok (), t))
    (hprep : t.prepare b = (r, u)) (hname : q.fileName = o.fileName) (hq : q.text = text) :
    TextReady server u q := by
  obtain ⟨_, message, answers, htext', hmessage, hwritten, hanswers⟩ :=
    (settled_of_configure hconf).sent
  obtain rfl := Option.some.inj (htext'.symm.trans htext)
  have hspared := spared_prepare t b
  rw [hprep] at hspared
  obtain ⟨added, hadded, hquiet⟩ := hspared.written
  have hrest : u = t.withClient u.client := hspared.rest
  have hroot : u.rootUri = s.rootUri := by
    have hheld := (held_run s (.configure o a)).1
    rw [Call.run, hconf] at hheld
    exact (congrArg Session.rootUri hrest).trans hheld
  have huri : resolveUri u.rootUri q.fileName = (s.nextDocument o.fileName).uri := by
    rw [h.named.nextDocument, hroot, hname]
  -- after the text only answers and nothing about documents was written
  have hlater : ∀ v ∈ answers ++ added, syncedUri? v = none := by
    intro v hv
    rcases List.mem_append.mp hv with hv | hv
    · obtain ⟨id, rfl⟩ := hanswers v hv
      exact syncedUri?_nullAnswer id
    · exact hquiet v hv
  have hall : u.client.written
      = (s.client.written ++ [settingsNotice o.settings]) ++ message :: (answers ++ added) := by
    rw [hadded, hwritten]
    simp
  rw [TextReady, huri, hall, Server.after, List.foldl_append, List.foldl_cons,
    Server.texts_foldl_of_quiet _ hlater, hq]
  rcases hmessage with rfl | ⟨rfl, -⟩
  · exact Server.store_changeMessage ..
  · exact Server.store_openMessage ..

/-! ## A case -/

/-- A case that is run on a session: with which settings, and what arrives in the three steps. -/
structure Trial where
  case : TestCase
  settings : Json
  configuring : Arrival := {}
  preparing : Arrival := {}
  completing : Arrival := {}

namespace Trial

/-- A session as a service, in which these messages arrive. -/
def service (t : Trial) : Service Session where
  configure o s := s.configure o t.configuring
  prepare s := ((s.prepare t.preparing).1.map fun _ => (), (s.prepare t.preparing).2)
  complete q s := s.complete q t.completing

def run (t : Trial) (s : Session) : Outcome Session Verdict :=
  Service.runCase t.service t.case t.settings s

/-- The session that asks the question of a case. -/
def asker (t : Trial) (s : Session) : Session :=
  (((s.configure (.ofCase t.case t.settings) t.configuring).2).prepare t.preparing).2

theorem options_asker (t : Trial) (s : Session) : (t.asker s).options = s.options :=
  options_afterCalls
    [.configure (.ofCase t.case t.settings) t.configuring, .prepare t.preparing] s

/-- The calls that are made when a case is run, which are fewer when one of them fails. -/
def calls (t : Trial) (s : Session) : List Call :=
  let configure : Call := .configure (.ofCase t.case t.settings) t.configuring
  let prepare : Call := .prepare t.preparing
  let complete : Call := .complete (.ofCase t.case) t.completing
  match configure.run s with
  | (.error _, _) => [configure]
  | (.ok (), s) =>
    match prepare.run s with
    | (.error _, _) => [configure, prepare]
    | (.ok (), _) => [configure, prepare, complete]

/-- The question of a case was asked, and a response to it arrived within the limit. -/
structure Answered (t : Trial) (s : Session) : Prop where
  asked : Call.complete (.ofCase t.case) t.completing ∈ t.calls s
  response : AnsweredIn (t.asker s) t.completing

theorem run_cases (t : Trial) (s : Session) :
    (∃ e, (t.run s).1 = .error e ∧ (t.run s).2 = afterCalls s (t.calls s) ∧
      Call.complete (.ofCase t.case) t.completing ∉ t.calls s) ∨
    ∃ s₁ r, s.configure (.ofCase t.case t.settings) t.configuring = (.ok (), s₁) ∧
      s₁.prepare t.preparing = (.ok r, t.asker s) ∧
      t.calls s = [.configure (.ofCase t.case t.settings) t.configuring, .prepare t.preparing,
        .complete (.ofCase t.case) t.completing] ∧
      t.run s = (((t.asker s).complete (.ofCase t.case) t.completing).1.map
        (Service.verdict t.case), afterCalls s (t.calls s)) := by
  rcases hconf : s.configure (.ofCase t.case t.settings) t.configuring with ⟨e | u, s₁⟩
  · refine Or.inl ⟨e, ?_⟩
    simp [run, calls, Service.runCase, service, Call.run, hconf, afterCalls]
  · rcases hprep : s₁.prepare t.preparing with ⟨e | r, s₂⟩
    · refine Or.inl ⟨e, ?_⟩
      simp [run, calls, Service.runCase, service, Call.run, hconf, hprep, afterCalls, Except.map]
    · refine Or.inr ⟨s₁, r, rfl, ?_⟩
      have hasker : t.asker s = s₂ := by simp [asker, hconf, hprep]
      rw [hasker]
      rcases hcomp : s₂.complete (.ofCase t.case) t.completing with ⟨e | reply, s₃⟩
      all_goals
        simp [run, calls, Service.runCase, service, Call.run, hconf, hprep, hcomp, afterCalls,
          Except.map]

end Trial

theorem verdict_of_trial {t : Trial} (h : InTouch server st s)
    (hserves : Serves server st s (t.calls s) st') :
    (t.Answered s → (t.run s).1 = .ok (server.verdict s.options.names t.case)) ∧
      ∀ v, (t.run s).1 = .ok v → v = server.verdict s.options.names t.case := by
  obtain ⟨e, herror, -, hnot⟩ | ⟨s₁, r, hconf, hprep, hcalls, hrun⟩ := t.run_cases s
  · refine ⟨fun hanswered => absurd hanswered.asked hnot, fun v hv => ?_⟩
    exact absurd (hv.symm.trans herror) (by simp)
  · rw [hcalls] at hserves
    -- the server moves three times, and before the question it is in touch with the asker
    cases hserves with
    | call hmoves₁ hserves =>
    cases hserves with
    | call hmoves₂ hserves =>
    cases hserves with
    | call hmoves₃ =>
      have hfirst : (Call.configure (.ofCase t.case t.settings) t.configuring).run s
          = (.ok (), s₁) := hconf
      have hsecond : ((Call.prepare t.preparing).run s₁).2 = t.asker s := by
        rw [Call.run, hprep]
      have h₁ : InTouch server _ s₁ := hfirst ▸ h.run hmoves₁
      rw [hfirst] at hmoves₂ hmoves₃
      have h₂ : InTouch server _ (t.asker s) := hsecond ▸ h₁.run hmoves₂
      rw [hsecond] at hmoves₃
      have htext : TextReady server (t.asker s) (.ofCase t.case) :=
        textReady_of_configure h rfl hconf hprep rfl rfl
      obtain ⟨hreply, hanswer⟩ := reply_of_complete h₂ htext hmoves₃
      rw [t.options_asker s] at hreply hanswer
      refine ⟨fun hanswered => ?_, fun v hv => ?_⟩
      · rw [hrun, hanswer hanswered.response]
        exact congrArg Except.ok (server.verdict_reply _ _)
      · rw [hrun] at hv
        obtain ⟨reply, hcomplete, rfl⟩ : ∃ reply,
            ((t.asker s).complete (.ofCase t.case) t.completing).1 = .ok reply ∧
              Service.verdict t.case reply = v := by
          cases hx : ((t.asker s).complete (.ofCase t.case) t.completing).1 with
          | error e => rw [hx] at hv; exact absurd hv (by simp [Except.map])
          | ok reply => rw [hx] at hv; exact ⟨reply, rfl, Except.ok.inj hv⟩
        rw [hreply reply hcomplete]
        exact server.verdict_reply _ _

/-! ## Every sequence of cases -/

def afterTrials : Session → List Trial → Session
  | s, [] => s
  | s, t :: rest => afterTrials (t.run s).2 rest

def trialCalls : Session → List Trial → List Call
  | _, [] => []
  | s, t :: rest => t.calls s ++ trialCalls (t.run s).2 rest

theorem Serves.split {xs ys : List Call} : ∀ {st : Server.State} {s : Session},
    Serves server st s (xs ++ ys) st' →
      ∃ mid, Serves server st s xs mid ∧ Serves server mid (afterCalls s xs) ys st' := by
  induction xs with
  | nil => exact fun h => ⟨_, .done _ _, h⟩
  | cons call rest ih =>
      intro st s h
      cases h with
      | call hm hrest =>
          obtain ⟨mid, hfirst, hlater⟩ := ih hrest
          exact ⟨mid, .call hm hfirst, hlater⟩

theorem Trial.run_eq_afterCalls (t : Trial) (s : Session) :
    (t.run s).2 = afterCalls s (t.calls s) := by
  obtain ⟨_, -, hafter, -⟩ | ⟨_, _, -, -, -, hrun⟩ := t.run_cases s
  · exact hafter
  · rw [hrun]

/-- The server is in touch with the session when a case begins, whatever ran before. -/
theorem InTouch.of_trials {later : List Trial} {t : Trial} (earlier : List Trial) :
    ∀ {st : Server.State} {s : Session}, InTouch server st s →
      Serves server st s (trialCalls s (earlier ++ t :: later)) st' →
      ∃ before after, InTouch server before (afterTrials s earlier) ∧
        Serves server before (afterTrials s earlier) (t.calls (afterTrials s earlier)) after ∧
        (afterTrials s earlier).options = s.options := by
  induction earlier with
  | nil =>
      intro st s h hserves
      obtain ⟨mid, hfirst, -⟩ := hserves.split
      exact ⟨st, mid, h, hfirst, rfl⟩
  | cons e rest ih =>
      intro st s h hserves
      obtain ⟨mid, hfirst, hlater⟩ := hserves.split
      have hmid := h.of_serves hfirst
      rw [← e.run_eq_afterCalls] at hmid hlater
      obtain ⟨before, after, hbefore, hcase, hoptions⟩ := ih hmid hlater
      refine ⟨before, after, hbefore, hcase, hoptions.trans ?_⟩
      rw [e.run_eq_afterCalls]
      exact options_afterCalls _ s

/-- **A session refines the service that it stands for.**  A session is connected to a server, and
cases run on it one after the other, while the server says what it likes.  Then each case whose
question is answered gets the verdict of what the server offers for the text of the case at its
cursor, and no case gets another one. -/
theorem session_refines_service {cwd : String} {options : Options} {settings : Json} {a : Arrival}
    {c : Client} {trials earlier later : List Trial} {t : Trial}
    (hconnect : connect {} cwd options settings a = (.ok s, c))
    (hgreet : server.Moves (greet {} (Lsp.rootUri cwd options.root) options settings).2.written 1
      {} a.messages st)
    (hserves : Serves server st s (trialCalls s trials) st')
    (htrials : trials = earlier ++ t :: later) :
    (t.Answered (afterTrials s earlier) →
      (t.run (afterTrials s earlier)).1 = .ok (server.verdict options.names t.case)) ∧
    ∀ v, (t.run (afterTrials s earlier)).1 = .ok v →
      v = server.verdict options.names t.case := by
  subst htrials
  obtain ⟨before, after, hbefore, hcase, hoptions⟩ :=
    (InTouch.of_connect hconnect hgreet).of_trials earlier hserves
  have hgiven : s.options = options := by
    obtain ⟨-, -, -, rfl⟩ := connect_cases hconnect
    rfl
  have hverdict := verdict_of_trial hbefore hcase
  rw [hoptions, hgiven] at hverdict
  exact hverdict

/-- A server that fails at every question and says why with the text that it was asked about. -/
def echoServer : Server where
  greeting := .null
  offer text _ := .error ⟨0, text, none⟩

def echo (id : Int) (text : String) : Json :=
  .obj [("jsonrpc", .str "2.0"), ("id", .int id),
    ("error", .obj [("code", .int 0), ("message", .str text)])]

def greeted : Session where
  client :=
    { nextId := 2
      written := [requestValue 1 "initialize" (greetingParams (Lsp.rootUri "/" ".") {} .null),
        notificationValue "initialized" (.obj [])] }
  rootUri := Lsp.rootUri "/" "."
  options := {}

def plainCase (text : String) : TestCase :=
  { source := "main.ts", text, code := text, lineNumber := 1, lineStart := 0
    dialect := .typeScript, cursor := 0, expected := [], unwanted := .empty }

/-- A case whose question is not answered in time. -/
def unanswered : Trial := { case := plainCase "a", settings := .null }

/-- A case that meets the response to the one before, and then its own. -/
def overtaken : Trial :=
  { case := plainCase "b", settings := .null
    completing := { messages := [echo 2 "a", echo 3 "b"] } }

theorem echoServer_serves : ∃ st',
    Serves echoServer (echoServer.after (greeted.client.written.take 1)) greeted
      (trialCalls greeted [unanswered, overtaken]) st' := by
  have hlast : ∃ st', echoServer.Moves
      ((Call.complete (.ofCase overtaken.case) overtaken.completing).heard
        (overtaken.asker (afterTrials greeted [unanswered]))) 3
      (echoServer.after (greeted.client.written.take 1)) [echo 2 "a", echo 3 "b"] st' :=
    ⟨_, .handles rfl (.handles rfl (.handles rfl (.handles rfl (.handles rfl (.handles rfl
      (.handles rfl (.answers (List.mem_of_getElem? (i := 1) rfl) rfl
        (.answers (List.mem_of_getElem? (i := 2) rfl) rfl (.rest _)))))))))⟩
  obtain ⟨st', hlast⟩ := hlast
  refine ⟨st', .call (.rest _) (.call (.rest _) (.call (.rest _) (.call (.rest _) (.call (.rest _)
    (.call hlast (.done _ _))))))⟩

theorem session_refines_service_overtaken :
    connect {} "/" {} .null
        { messages := [.obj [("jsonrpc", .str "2.0"), ("id", .int 1), ("result", .null)]] }
      = (.ok greeted, greeted.client) ∧
    (unanswered.run greeted).1 = .error (.timeout completionMethod 10000) ∧
    (overtaken.run (afterTrials greeted [unanswered])).1 = .ok (.fail (.crashed "b")) := by
  refine ⟨rfl, rfl, ?_⟩
  obtain ⟨st', hserves⟩ := echoServer_serves
  have hgreet : echoServer.Moves (greet {} (Lsp.rootUri "/" ".") {} .null).2.written 1 {}
      [.obj [("jsonrpc", .str "2.0"), ("id", .int 1), ("result", .null)]]
      (echoServer.after (greeted.client.written.take 1)) :=
    .handles rfl (.answers (List.mem_of_getElem? (i := 0) rfl) rfl (.rest _))
  have hconnect : connect {} "/" {} .null
        { messages := [.obj [("jsonrpc", .str "2.0"), ("id", .int 1), ("result", .null)]] }
      = (.ok greeted, greeted.client) := rfl
  have htrials : [unanswered, overtaken] = [unanswered] ++ overtaken :: [] := rfl
  refine (session_refines_service hconnect hgreet hserves htrials).1 ⟨?_, ?_⟩
  · exact List.mem_of_getElem? (i := 2) rfl
  · exact ⟨echo 3 "b", List.mem_of_getElem? (i := 1) rfl, _, rfl⟩

end Session

end CompletionCheck.Lsp
