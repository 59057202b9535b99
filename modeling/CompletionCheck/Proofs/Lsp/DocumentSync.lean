import CompletionCheck.Proofs.Lsp.SessionRun

/-!
# Documents in step with the server

A server applies the texts it is sent in the order of their versions, so what is written about a
file has to be one opening with version 1 and then changes with the versions 2, 3, 4 and so on,
each with the text of its own configuration, whatever fails in between.  Three things could break
this: a version that is raised although its message is not written, a configuration that fails
after its message was written, and a mix-up of the two files.

`InStep` is the invariant.  Failed writes are what makes it delicate: a session whose versions have
run ahead of its messages can write nothing any more, which is the clause `closed`.
`documents_in_step` says that every run keeps it.
-/

namespace CompletionCheck.Lsp.Session

open Client (Halts Answered answersTo)
open Service (Outcome Reply Request)

/-! ## Messages about a file -/

def fileUri (base : String) (d : Dialect) : String :=
  resolveUri base d.fileName

/-- The document whose text a message sends. -/
def syncedUri? (v : Json) : Option String :=
  if methodOf? v = some "textDocument/didOpen" ∨ methodOf? v = some "textDocument/didChange" then
    (((v.memberD "params").memberD "textDocument").memberD "uri").text?
  else none

def textMessages (uri : String) (written : List Json) : List Json :=
  written.filter fun v => syncedUri? v = some uri

/-- The message that sends a text of a document when `n` texts have been sent before. -/
def versionMessage (uri : String) (d : Dialect) (n : Nat) (text : String) : Json :=
  if n = 0 then openMessage uri d text else changeMessage uri (n + 1) text

/-- The document that a server has when `n` texts have been sent. -/
def versionDocument? (uri : String) (n : Nat) : Option Document :=
  if n = 0 then none else some ⟨uri, n⟩

theorem fileUri_injective {base : String} {d e : Dialect} (h : fileUri base d = fileUri base e) :
    d = e := by
  simp only [fileUri, resolveUri] at h
  have hnames : d.fileName.toList = e.fileName.toList :=
    List.append_cancel_left (String.ofList_injective h)
  revert hnames
  cases d <;> cases e <;> decide

@[simp] theorem syncedUri?_openMessage (uri : String) (d : Dialect) (text : String) :
    syncedUri? (openMessage uri d text) = some uri := by
  simp [syncedUri?, openMessage, openParams, Json.memberD, Json.member?_ofMembers,
    Json.lookup_cons_ite, notificationValue, methodOf?]

@[simp] theorem syncedUri?_changeMessage (uri : String) (version : Nat) (text : String) :
    syncedUri? (changeMessage uri version text) = some uri := by
  simp [syncedUri?, changeMessage, changeParams, Json.memberD, Json.member?_ofMembers,
    Json.lookup_cons_ite, notificationValue, methodOf?]

@[simp] theorem syncedUri?_versionMessage (uri : String) (d : Dialect) (n : Nat) (text : String) :
    syncedUri? (versionMessage uri d n text) = some uri := by
  rw [versionMessage]
  split <;> simp

@[simp] theorem syncedUri?_settingsNotice (settings : Json) :
    syncedUri? (settingsNotice settings) = none := by
  simp [syncedUri?, settingsNotice]

@[simp] theorem syncedUri?_nullAnswer (id : Id) : syncedUri? (nullAnswer id) = none := by
  simp [syncedUri?]

theorem syncedUri?_answersTo {ms : List Json} {v : Json} (h : v ∈ answersTo ms) :
    syncedUri? v = none := by
  obtain ⟨id, rfl⟩ := Client.eq_nullAnswer_of_mem_answersTo h
  exact syncedUri?_nullAnswer id

theorem textMessages_append (uri : String) (xs ys : List Json) :
    textMessages uri (xs ++ ys) = textMessages uri xs ++ textMessages uri ys :=
  List.filter_append ..

theorem textMessages_of_quiet {uri : String} {vs : List Json} (h : ∀ v ∈ vs, syncedUri? v = none) :
    textMessages uri vs = [] := by
  refine List.filter_eq_nil_iff.mpr fun v hv => ?_
  simp [h v hv]

/-! ## Texts to be sent -/

/-- The text that a call is to send for the file of a dialect. -/
def Call.textFor? (d : Dialect) : Call → Option String
  | .configure o _ => if o.dialect = d then o.text else none
  | _ => none

/-- The texts with which the file of a dialect is configured by calls. -/
def textsFor (d : Dialect) (calls : List Call) : List String :=
  calls.filterMap (Call.textFor? d)

/-- Whether every message could be written that calls with these results had to write. -/
def Unbroken (results : List (Except ServiceError Unit)) : Prop :=
  ∀ r ∈ results, r ≠ .error (.io .brokenPipe)

theorem textsFor_snoc (d : Dialect) (calls : List Call) (call : Call) :
    textsFor d (calls ++ [call]) = textsFor d calls ++ (call.textFor? d).toList := by
  rw [textsFor, List.filterMap_append, textsFor]
  cases h : call.textFor? d <;> simp [h]

theorem unbroken_snoc {results : List (Except ServiceError Unit)} {r : Except ServiceError Unit} :
    Unbroken (results ++ [r]) ↔ Unbroken results ∧ r ≠ .error (.io .brokenPipe) := by
  rw [Unbroken, List.forall_mem_append, List.forall_mem_singleton, Unbroken]

/-! ## The invariant -/

/-- What holds of a session whose workspace is `base` after `calls` that gave `results`. -/
structure InStep (base : String) (calls : List Call) (results : List (Except ServiceError Unit))
    (s : Session) : Prop where
  rootUri : s.rootUri = base
  /-- Texts are sent for the two files only. -/
  files : ∀ v ∈ s.client.written, ∀ uri, syncedUri? v = some uri → ∃ d, uri = fileUri base d
  /-- The texts of a file were sent under the versions 1, 2, 3 and so on: the first ones with which
  it was configured, and all of them as long as nothing failed to be written. -/
  messages : ∀ d, ∃ sent, sent <+: textsFor d calls ∧
    textMessages (fileUri base d) s.client.written
      = sent.mapIdx (versionMessage (fileUri base d) d) ∧
    (Unbroken results → sent = textsFor d calls ∧
      s.documents.lookup d.fileName = versionDocument? (fileUri base d) sent.length)
  current : ∀ name, s.current = some name → (s.documents.lookup name).isSome
  /-- After a message that could not be written no other can. -/
  closed : ¬ Unbroken results → s.client.writesLeft = some 0

section Steps

variable {base : String} {calls : List Call} {results : List (Except ServiceError Unit)}
  {s t : Session} {call : Call} {r : Except ServiceError Unit} {added : List Json}

theorem InStep.unbroken (h : InStep base calls results s) (hopen : s.client.writesLeft ≠ some 0) :
    Unbroken results :=
  Classical.byContradiction fun hbroken => hopen (h.closed hbroken)

/-- A call that sends no text: either it does not touch the documents and had none to send, or it
could not be written. -/
theorem InStep.quiet (h : InStep base calls results s) (hroot : t.rootUri = s.rootUri)
    (hcurrent : t.current = s.current)
    (hkeys : ∀ name, (t.documents.lookup name).isSome = (s.documents.lookup name).isSome)
    (hwritten : t.client.written = s.client.written ++ added)
    (hquiet : ∀ v ∈ added, syncedUri? v = none)
    (hclosed : s.client.writesLeft = some 0 → t.client.writesLeft = some 0)
    (hbroken : r = .error (.io .brokenPipe) → t.client.writesLeft = some 0)
    (hsound : r ≠ .error (.io .brokenPipe) →
      t.documents = s.documents ∧ ∀ d, call.textFor? d = none) :
    InStep base (calls ++ [call]) (results ++ [r]) t where
  rootUri := hroot.trans h.rootUri
  files v hv uri huri := by
    rw [hwritten] at hv
    rcases List.mem_append.mp hv with hv | hv
    · exact h.files v hv uri huri
    · rw [hquiet v hv] at huri
      exact absurd huri (by simp)
  messages d := by
    obtain ⟨sent, hsent, hmessages, hall⟩ := h.messages d
    refine ⟨sent, ?_, ?_, fun hun => ?_⟩
    · rw [textsFor_snoc]
      exact hsent.trans (List.prefix_append _ _)
    · rw [hwritten, textMessages_append, textMessages_of_quiet hquiet, List.append_nil, hmessages]
    · obtain ⟨hun, hr⟩ := unbroken_snoc.mp hun
      obtain ⟨hdocs, htext⟩ := hsound hr
      obtain ⟨rfl, hdoc⟩ := hall hun
      refine ⟨?_, ?_⟩
      · rw [textsFor_snoc, htext d]
        exact (List.append_nil _).symm
      · rw [hdocs, hdoc]
  current name hname := by
    rw [hkeys]
    exact h.current name (hcurrent ▸ hname)
  closed hbad := by
    by_cases hr : r = .error (.io .brokenPipe)
    · exact hbroken hr
    · exact hclosed (h.closed fun hun => hbad (unbroken_snoc.mpr ⟨hun, hr⟩))

theorem InStep.next (h : InStep base calls results s) (hun : Unbroken results) (d : Dialect)
    (text : String) :
    s.textMessage d text = versionMessage (fileUri base d) d (textsFor d calls).length text ∧
      some (s.nextDocument d.fileName)
        = versionDocument? (fileUri base d) ((textsFor d calls).length + 1) := by
  obtain ⟨sent, -, -, hall⟩ := h.messages d
  obtain ⟨rfl, hdoc⟩ := hall hun
  by_cases hn : (textsFor d calls).length = 0
  · rw [versionDocument?, if_pos hn] at hdoc
    refine ⟨?_, ?_⟩
    · rw [textMessage, hdoc, versionMessage, if_pos hn, h.rootUri]
      rfl
    · rw [nextDocument, hdoc, versionDocument?, hn, h.rootUri]
      rfl
  · rw [versionDocument?, if_neg hn] at hdoc
    refine ⟨?_, ?_⟩
    · rw [textMessage, hdoc, versionMessage, if_neg hn]
    · rw [nextDocument, hdoc, versionDocument?, if_neg (Nat.succ_ne_zero _)]

/-- The message of a configuration goes behind the messages about its own file. -/
theorem InStep.textMessages_sent {o : Service.Options} {a : Arrival} {text : String}
    {answers : List Json} (h : InStep base calls results s) (hun : Unbroken results)
    (htext : o.text = some text) (hquiet : ∀ v ∈ answers, syncedUri? v = none) (d : Dialect) :
    textMessages (fileUri base d) (s.client.written ++
        settingsNotice o.settings :: s.textMessage o.dialect text :: answers)
      = (textsFor d (calls ++ [.configure o a])).mapIdx
          (versionMessage (fileUri base d) d) := by
  obtain ⟨hmessage, -⟩ := h.next hun o.dialect text
  obtain ⟨sent, -, hmessages, hall⟩ := h.messages d
  obtain ⟨rfl, -⟩ := hall hun
  have hparts : settingsNotice o.settings :: s.textMessage o.dialect text :: answers
      = [settingsNotice o.settings] ++ [s.textMessage o.dialect text] ++ answers := rfl
  rw [hparts, textMessages_append, textMessages_append, textMessages_append,
    textMessages_of_quiet hquiet, hmessages, textsFor_snoc, hmessage]
  by_cases hd : o.dialect = d
  · subst hd
    simp [Call.textFor?, htext, textMessages, List.mapIdx_append]
  · have hother : fileUri base o.dialect ≠ fileUri base d := fun he => hd (fileUri_injective he)
    simp [Call.textFor?, hd, textMessages, hother]

/-- The document of a configuration takes the place of the one before, and no other is touched. -/
theorem InStep.lookup_sent {o : Service.Options} {a : Arrival} {text : String}
    (h : InStep base calls results s) (hun : Unbroken results) (htext : o.text = some text)
    (d : Dialect) :
    (putDocument o.dialect.fileName (s.nextDocument o.dialect.fileName) s.documents).lookup
        d.fileName
      = versionDocument? (fileUri base d) (textsFor d (calls ++ [.configure o a])).length := by
  obtain ⟨-, hdocument⟩ := h.next hun o.dialect text
  obtain ⟨sent, -, -, hall⟩ := h.messages d
  obtain ⟨rfl, hdoc⟩ := hall hun
  rw [lookup_putDocument, textsFor_snoc]
  by_cases hd : o.dialect = d
  · subst hd
    rw [if_pos rfl, hdocument]
    simp [Call.textFor?, htext]
  · have hother : d.fileName ≠ o.dialect.fileName := by
      revert hd
      cases d <;> cases o.dialect <;> decide
    rw [if_neg hother, hdoc]
    simp [Call.textFor?, hd]

theorem InStep.sent {o : Service.Options} {a : Arrival} {text : String} {answers : List Json}
    (h : InStep base calls results s)
    (hopen : s.client.writesLeft ≠ some 0) (htext : o.text = some text)
    (hroot : t.rootUri = s.rootUri)
    (hcurrent : t.current = s.current ∨ t.current = some o.fileName)
    (hdocs : t.documents = putDocument o.fileName (s.nextDocument o.fileName) s.documents)
    (hwritten : t.client.written = s.client.written ++
      settingsNotice o.settings :: s.textMessage o.dialect text :: answers)
    (hquiet : ∀ v ∈ answers, syncedUri? v = none)
    (hbroken : r = .error (.io .brokenPipe) → t.client.writesLeft = some 0) :
    InStep base (calls ++ [.configure o a]) (results ++ [r]) t where
  rootUri := hroot.trans h.rootUri
  files v hv uri huri := by
    obtain ⟨hmessage, -⟩ := h.next (h.unbroken hopen) o.dialect text
    rw [hwritten, hmessage] at hv
    rcases List.mem_append.mp hv with hv | hv
    · exact h.files v hv uri huri
    · rcases List.mem_cons.mp hv with rfl | hv
      · exact absurd huri (by simp)
      · rcases List.mem_cons.mp hv with rfl | hv
        · rw [syncedUri?_versionMessage] at huri
          exact ⟨o.dialect, (Option.some.inj huri).symm⟩
        · rw [hquiet v hv] at huri
          exact absurd huri (by simp)
  messages d := by
    -- a session that can still write has written everything so far, and so all texts were sent
    have hun := h.unbroken hopen
    refine ⟨_, List.prefix_rfl, ?_, fun _ => ⟨rfl, ?_⟩⟩
    · rw [hwritten]
      exact h.textMessages_sent hun htext hquiet d
    · rw [hdocs]
      exact h.lookup_sent hun htext d
  current name hname := by
    rw [hdocs, lookup_putDocument]
    split
    · rfl
    · next hother =>
        rcases hcurrent with hcurrent | hcurrent
        · exact h.current name (hcurrent ▸ hname)
        · rw [hcurrent] at hname
          exact absurd (Option.some.inj hname).symm hother
  closed hbad := by
    refine hbroken (Classical.byContradiction fun hr => ?_)
    exact hbad (unbroken_snoc.mpr ⟨h.unbroken hopen, hr⟩)

end Steps

/-! ## Every call keeps the invariant -/

/-- What a call may write, and when it may touch the documents. -/
structure Contained (s : Session) (call : Call) (t : Session) : Prop where
  /-- A configuration with a text writes the settings, the text, and answers, in this order, and
  stops where it cannot write. -/
  text : ∀ o a text, call = .configure o a → o.text = some text →
    ∃ added answers, t.client.written = s.client.written ++ added ∧
      added <+: settingsNotice o.settings :: s.textMessage o.dialect text :: answers ∧
      ∀ v ∈ answers, ∃ id, v = nullAnswer id
  /-- A configuration without a text writes the settings and nothing else. -/
  textless : ∀ o a, call = .configure o a → o.text = none →
    t.documents = s.documents ∧ t.current = s.current ∧
      (t.client.written = s.client.written ++ [settingsNotice o.settings] ∨
        (s.client.writesLeft = some 0 ∧ t.client.written = s.client.written))
  /-- Every other call leaves the documents alone. -/
  others : (∀ o a, call ≠ .configure o a) →
    t.documents = s.documents ∧ t.current = s.current ∧
      ∃ added, t.client.written = s.client.written ++ added ∧ ∀ v ∈ added, syncedUri? v = none

/-- What becomes of a session by a call that has no text to send: the client goes on, writes
nothing about a document, and fails to write only for good. -/
structure Spared (s : Session) (r : Except ServiceError Unit) (t : Session) : Prop where
  rest : t = s.withClient t.client
  written : ∃ added, t.client.written = s.client.written ++ added ∧
    ∀ v ∈ added, syncedUri? v = none
  closed : s.client.writesLeft = some 0 → t.client.writesLeft = some 0
  broken : r = .error (.io .brokenPipe) → t.client.writesLeft = some 0

theorem spared_deliver (s : Session) (a : Arrival) : Spared s (.ok ()) (s.deliver a) where
  rest := rfl
  written := ⟨[], (List.append_nil _).symm, fun _ hv => absurd hv List.not_mem_nil⟩
  closed := id
  broken hr := absurd hr (by simp)

theorem spared_prepare (s : Session) (a : Arrival) :
    Spared s ((s.prepare a).1.map fun _ => ()) (s.prepare a).2 := by
  rcases hrun : s.prepare a with ⟨r, t⟩
  cases prepare_cases hrun with
  | idle => exact spared_deliver s a
  | @waited d x c hcur hwait =>
      obtain ⟨params, e, hk, rfl, rfl⟩ | ⟨-, hh⟩ := Client.wait_cases hwait
      · obtain ⟨kept, rfl⟩ := Client.takeKept?_frame hk
        refine ⟨rfl, ⟨[], (List.append_nil _).symm, ?_⟩, id, ?_⟩
        · exact fun _ hv => absurd hv List.not_mem_nil
        · exact fun hr => absurd hr (by simp [Except.map])
      · obtain ⟨passed, had⟩ := hh.answered
        refine ⟨rfl, ⟨answersTo passed, had.written, fun v => syncedUri?_answersTo⟩, ?_, ?_⟩
        · exact fun hclosed => (had.closed hclosed).1
        · intro hr
          refine hh.closed_of_broken ?_ (by simp [Client.noNotification])
          cases x with
          | error e => simpa [Except.map] using hr
          | ok params => exact absurd hr (by simp [Except.map])

theorem spared_complete (s : Session) (q : Request) (a : Arrival) :
    Spared s ((s.complete q a).1.map fun _ => ()) (s.complete q a).2 := by
  rcases hrun : s.complete q a with ⟨r, t⟩
  cases complete_cases hrun with
  | refused hclosed =>
      refine ⟨rfl, ⟨[], (List.append_nil _).symm, ?_⟩, id, fun _ => hclosed⟩
      exact fun _ hv => absurd hv List.not_mem_nil
  | @asked x c hopen hh =>
      obtain ⟨passed, had⟩ := hh.answered
      refine ⟨rfl, ⟨requestValue s.client.nextId completionMethod (s.askedParams q) ::
        answersTo passed, ?_, ?_⟩, fun hclosed => absurd hclosed hopen, ?_⟩
      · exact had.written.trans (List.append_assoc ..)
      · intro v hv
        rcases List.mem_cons.mp hv with rfl | hv
        · simp [syncedUri?, completionMethod]
        · exact syncedUri?_answersTo hv
      · intro hr
        refine hh.closed_of_broken ?_ ?_
        · cases x with
          | error e => simpa [Except.map, Except.bind] using hr
          | ok result =>
              exfalso
              cases result with
              | error e => simp [Except.map, Except.bind, replyOf] at hr
              | ok v =>
                  simp only [Except.map, Except.bind, replyOf] at hr
                  cases hc : s.options.names.candidates? v <;> simp [hc] at hr
        · intro ended
          cases ended <;> simp [Client.noResponse]

theorem spared_run (s : Session) {call : Call} (h : ∀ o a, call ≠ .configure o a) :
    Spared s (call.run s).1 (call.run s).2 := by
  cases call with
  | configure o a => exact absurd rfl (h o a)
  | prepare a => exact spared_prepare s a
  | complete q a => exact spared_complete s q a
  | arrive a => exact spared_deliver s a

theorem written_revised {s t : Session} {settings : Json} {d : Dialect} {text : String}
    {written answers : List Json} (ht : t = (s.informed settings).revised d text)
    (h : written = t.client.written ++ answers) :
    written = s.client.written ++ settingsNotice settings :: s.textMessage d text :: answers := by
  have hnext : t.client.written
      = s.client.written ++ [settingsNotice settings] ++ [s.textMessage d text] := by
    rw [ht]; rfl
  rw [h, hnext, List.append_assoc, List.append_assoc]
  rfl

theorem InStep.run {base : String} {calls : List Call}
    {results : List (Except ServiceError Unit)} {s : Session} (h : InStep base calls results s)
    (call : Call) :
    InStep base (calls ++ [call]) (results ++ [(call.run s).1]) (call.run s).2 := by
  by_cases hconf : ∀ o a, call ≠ .configure o a
  · obtain ⟨hrest, ⟨added, hwritten, hquiet⟩, hclosed, hbroken⟩ := spared_run s hconf
    rw [hrest] at hwritten ⊢
    refine h.quiet rfl rfl (fun _ => rfl) hwritten hquiet hclosed hbroken fun _ => ⟨rfl, fun d => ?_⟩
    cases call with
    | configure o a => exact absurd rfl (hconf o a)
    | prepare | complete | arrive => rfl
  · cases call with
    | prepare | complete | arrive => exact absurd (by simp) hconf
    | configure o a =>
        rcases hrun : s.configure o a with ⟨r, t⟩
        simp only [Call.run, hrun]
        cases configure_cases hrun with
        | refused hclosed =>
            refine h.quiet rfl rfl (fun _ => rfl) (List.append_nil _).symm ?_ id ?_ ?_
            · exact fun _ hv => absurd hv List.not_mem_nil
            · exact fun _ => hclosed
            · exact fun hr => absurd rfl hr
        | textless htext hopen =>
            refine h.quiet rfl rfl (fun _ => rfl) rfl (by simp) ?_ ?_ ?_
            · exact fun hclosed => absurd hclosed hopen
            · exact fun hr => absurd hr (by simp)
            · exact fun _ => ⟨rfl, fun d => by simp [Call.textFor?, htext]⟩
        | unsent htext hopen hclosed huris =>
            refine h.quiet rfl rfl (fun name => ?_) rfl (by simp) (fun _ => hclosed)
              (fun _ => hclosed) fun hr => absurd rfl hr
            simpa using congrArg Option.isSome (huris name)
        | unsettled htext hopen hopen' ht hh =>
            obtain ⟨passed, had⟩ := hh.answered
            refine h.sent hopen htext ?_ (Or.inl ?_) ?_ (written_revised ht had.written)
              (fun _ => syncedUri?_answersTo) fun hr => hh.closed_of_broken hr (by simp)
            all_goals
              rw [ht]
              rfl
        | settled htext hopen hopen' ht hh =>
            obtain ⟨passed, had⟩ := hh.answered
            refine h.sent hopen htext ?_ (Or.inr rfl) ?_ (written_revised ht had.written)
              (fun _ => syncedUri?_answersTo) fun hr => absurd hr (by simp)
            all_goals
              rw [ht]
              rfl

theorem contained_run (s : Session) (call : Call) : Contained s call (call.run s).2 where
  text := by
    rintro o a text rfl htext
    rcases hrun : s.configure o a with ⟨r, t⟩
    simp only [Call.run, hrun]
    cases configure_cases hrun with
    | refused hclosed =>
        refine ⟨[], [], (List.append_nil _).symm, List.nil_prefix, ?_⟩
        exact fun _ hv => absurd hv List.not_mem_nil
    | textless hnone => exact absurd (hnone.symm.trans htext) (by simp)
    | unsent _ hopen hclosed _ =>
        refine ⟨[settingsNotice o.settings], [], rfl, ⟨[s.textMessage o.dialect text], rfl⟩, ?_⟩
        exact fun _ hv => absurd hv List.not_mem_nil
    | unsettled htext' hopen hopen' ht hh | settled htext' hopen hopen' ht hh =>
        obtain ⟨passed, had⟩ := hh.answered
        obtain rfl := Option.some.inj (htext'.symm.trans htext)
        exact ⟨_, _, written_revised ht had.written, List.prefix_rfl,
          fun _ => Client.eq_nullAnswer_of_mem_answersTo⟩
  textless := by
    rintro o a rfl hnone
    rcases hrun : s.configure o a with ⟨r, t⟩
    simp only [Call.run, hrun]
    cases configure_cases hrun with
    | refused hclosed => exact ⟨rfl, rfl, Or.inr ⟨hclosed, rfl⟩⟩
    | textless => exact ⟨rfl, rfl, Or.inl rfl⟩
    | unsent htext | unsettled htext | settled htext =>
        exact absurd (hnone.symm.trans htext) (by simp)
  others hconf := by
    obtain ⟨hrest, hwritten, -, -⟩ := spared_run s hconf
    exact ⟨by rw [hrest]; rfl, by rw [hrest]; rfl, hwritten⟩

/-! ## Every run -/

theorem InStep.of_calls {base : String} (later : List Call) : ∀ {calls : List Call}
    {results : List (Except ServiceError Unit)} {s : Session}, InStep base calls results s →
      InStep base (calls ++ later) (results ++ callResults s later) (afterCalls s later) := by
  induction later with
  | nil =>
      intro calls results s h
      simpa [callResults, afterCalls] using h
  | cons call rest ih =>
      intro calls results s h
      have hrest := ih (h.run call)
      rw [List.append_assoc, List.append_assoc] at hrest
      exact hrest

theorem InStep.of_connect {w : Option Nat} {cwd : String} {options : Options} {settings : Json}
    {a : Arrival} {s : Session} {c : Client}
    (h : connect { writesLeft := w } cwd options settings a = (.ok s, c)) :
    InStep (Lsp.rootUri cwd options.root) [] [] s := by
  obtain ⟨result, e, hh, rfl⟩ := connect_cases h
  obtain ⟨passed, had⟩ := hh.answered
  have hquiet : ∀ v ∈ (e.wrote (notificationValue "initialized" (.obj []))).written,
      syncedUri? v = none := by
    intro v hv
    have hwritten : (e.wrote (notificationValue "initialized" (.obj []))).written
        = e.written ++ [notificationValue "initialized" (.obj [])] := rfl
    rw [hwritten, had.written] at hv
    rcases List.mem_append.mp hv with hv | hv
    · rcases List.mem_append.mp hv with hv | hv
      · rw [List.mem_singleton.mp hv]
        simp [syncedUri?]
      · exact syncedUri?_answersTo hv
    · rw [List.mem_singleton.mp hv]
      simp [syncedUri?]
  refine ⟨rfl, fun v hv uri huri => ?_, fun d => ?_, fun name hname => ?_, fun hbad => ?_⟩
  · rw [hquiet v hv] at huri
    exact absurd huri (by simp)
  · exact ⟨[], List.nil_prefix, textMessages_of_quiet hquiet, fun _ => ⟨rfl, rfl⟩⟩
  · exact absurd hname (by simp)
  · exact absurd (fun _ hr => absurd hr List.not_mem_nil) hbad

/-- **Documents stay in step with the server.**  After every run of calls of a connected session,
whatever arrives, whatever fails, and from whichever message on nothing can be written, the
invariant holds; and every further call writes about documents only what it should. -/
theorem documents_in_step {w : Option Nat} {cwd : String} {options : Options} {settings : Json}
    {a : Arrival} {s : Session} {c : Client}
    (h : connect { writesLeft := w } cwd options settings a = (.ok s, c)) (calls : List Call) :
    InStep (Lsp.rootUri cwd options.root) calls (callResults s calls) (afterCalls s calls) ∧
      ∀ call, Contained (afterCalls s calls) call (call.run (afterCalls s calls)).2 := by
  refine ⟨?_, fun call => contained_run _ call⟩
  exact (InStep.of_connect h).of_calls calls

/-- Three calls that configure the first file twice and the second one in between, where a message
that makes no sense arrives. -/
def interruptedCalls : List Call :=
  [.configure ⟨some "a", .typeScript, .null⟩ {},
   .configure ⟨some "b", .python, .null⟩ { messages := [.null] },
   .configure ⟨some "c", .typeScript, .null⟩ {}]

theorem documents_in_step_interrupted :
    ∃ s c, connect { writesLeft := none } "/" {} .null
        { messages := [.obj [("jsonrpc", .str "2.0"), ("id", .int 1), ("result", .null)]] }
          = (.ok s, c) ∧
      callResults s interruptedCalls
        = [.ok (), .error (.protocol .undecodableMessage), .ok ()] ∧
      (afterCalls s interruptedCalls).documents.map (fun e => (e.1, e.2.version))
        = [("main.ts", 2), ("main.py", 1)] ∧
      InStep (Lsp.rootUri "/" ".") interruptedCalls (callResults s interruptedCalls)
        (afterCalls s interruptedCalls) := by
  obtain ⟨s, c, h, hresults, hdocuments⟩ : ∃ s c, connect { writesLeft := none } "/" {} .null
        { messages := [.obj [("jsonrpc", .str "2.0"), ("id", .int 1), ("result", .null)]] }
          = (.ok s, c) ∧
      callResults s interruptedCalls
        = [.ok (), .error (.protocol .undecodableMessage), .ok ()] ∧
      (afterCalls s interruptedCalls).documents.map (fun e => (e.1, e.2.version))
        = [("main.ts", 2), ("main.py", 1)] := ⟨_, _, rfl, rfl, rfl⟩
  exact ⟨s, c, h, hresults, hdocuments, (documents_in_step h _).1⟩

end CompletionCheck.Lsp.Session
