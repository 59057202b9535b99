import CompletionCheck.Proofs.Lsp.DocumentSync

/-!
# What ends the wait for a server

A server shows that it has taken a text in by diagnostics, and diagnostics for an older text look
the same.  They can hide in three places: among the notifications kept, in the inbox, and in what
is still on its way.  A configuration empties the first two and does so after it has sent its text;
the version is what the third is tested by.

The argument follows where notifications come from.  `Fresh p ms c` says that every notification
in `c` that satisfies `p` was brought by one of the messages `ms`.  A configuration that succeeds
makes this true of the diagnostics about its document with no messages at all, and every other
operation keeps it true with the messages that arrive in it.
-/

namespace CompletionCheck.Lsp

namespace Client

open Service (Outcome)

variable {α : Type} {keeping : Bool} {pick : Message → Option α}
  {atEnd : Bool → Except ServiceError α} {p : Notification → Bool} {ms : List Json}
  {c d : Client}

/-! ## Where notifications come from -/

/-- One of these messages is the notification. -/
def Brought (ms : List Json) (n : Notification) : Prop :=
  ∃ m ∈ ms, Message.ofJson? m = some (.notification n)

theorem Brought.mono {ms' : List Json} {n : Notification} (h : Brought ms n) (hsub : ms ⊆ ms') :
    Brought ms' n := by
  obtain ⟨m, hm, hn⟩ := h
  exact ⟨m, hsub hm, hn⟩

theorem Passes.kept (h : Passes keeping pick c ms d) :
    ∀ n ∈ d.kept, n ∈ c.kept ∨ Brought ms n := by
  induction h with
  | nil => exact fun n hn => Or.inl hn
  | @cons c d e m msg ms hm _ hpass _ ih =>
      intro n hn
      rcases ih n hn with hn | hn
      · cases msg with
        | response => cases hpass; exact Or.inl hn
        | request id method params =>
            obtain ⟨-, -, rfl⟩ | ⟨hr, -⟩ := write_cases hpass
            · exact Or.inl hn
            · exact absurd hr (by simp)
        | notification x =>
            cases keeping with
            | false => cases hpass; exact Or.inl hn
            | true =>
                cases hpass
                rcases List.mem_append.mp hn with hn | hn
                · refine Or.inl ?_
                  split at hn
                  · exact List.mem_of_mem_drop hn
                  · exact hn
                · rw [List.mem_singleton.mp hn]
                  exact Or.inr ⟨m, List.mem_cons_self, hm⟩
      · exact Or.inr (hn.mono (List.subset_cons_self m ms))

theorem Halts.kept {r : Except ServiceError α} (h : Halts keeping pick atEnd c ms r d) :
    ∀ n ∈ d.kept, n ∈ c.kept ∨ Brought ms n := by
  intro n hn
  cases h with
  | exhausted hp => exact hp.kept n hn
  | picked hp | undecodable hp | unanswered hp =>
      exact (hp.kept n hn).imp id fun hb => hb.mono (List.subset_append_left _ _)

/-! ## Fresh notifications -/

/-- Everything unread is among the messages `ms`, and so is every notification kept that satisfies
`p`. -/
structure Fresh (p : Notification → Bool) (ms : List Json) (c : Client) : Prop where
  inbox : c.inbox ⊆ ms
  kept : ∀ n ∈ c.kept, p n = true → Brought ms n

theorem Fresh.mono {ms' : List Json} (h : Fresh p ms c) (hsub : ms ⊆ ms') : Fresh p ms' c :=
  ⟨fun _ hm => hsub (h.inbox hm), fun n hn hp => (h.kept n hn hp).mono hsub⟩

theorem Fresh.deliver (h : Fresh p ms c) (a : Arrival) :
    Fresh p (ms ++ a.messages) (c.deliver a) where
  inbox m hm := by
    rcases List.mem_append.mp hm with hm | hm
    · exact List.mem_append_left _ (h.inbox hm)
    · exact List.mem_append_right _ hm
  kept n hn hp := (h.kept n hn hp).mono (List.subset_append_left _ _)

theorem Fresh.halts {r : Except ServiceError α} (h : Fresh p ms c)
    (hh : Halts keeping pick atEnd c c.inbox r d) : Fresh p ms d where
  inbox m hm := by
    obtain ⟨-, taken, -, hq, -⟩ := hh.split
    refine h.inbox ?_
    rw [hq]
    exact List.mem_append_right _ hm
  kept n hn hp := by
    rcases hh.kept n hn with hn | hn
    · exact h.kept n hn hp
    · exact hn.mono h.inbox

theorem Fresh.wait {method : String} {accept : Json → Bool} {a : Arrival}
    {r : Except ServiceError (Option Json)} (h : Fresh p ms c)
    (hw : c.wait method accept a = (r, d)) : Fresh p (ms ++ a.messages) d := by
  obtain ⟨params, e, hk, rfl, rfl⟩ | ⟨-, hh⟩ := wait_cases hw
  · refine Fresh.deliver ?_ a
    obtain ⟨⟨n, left⟩, hf, he⟩ := Option.map_eq_some_iff.mp hk
    cases he
    obtain ⟨-, -, hsub⟩ := takeFirst?_mem _ hf
    exact ⟨h.inbox, fun n hn hp => h.kept n (hsub hn) hp⟩
  · exact (h.deliver a).halts hh

/-- What a wait finds was kept, or is among the messages that it goes through. -/
theorem wait_found {method : String} {accept : Json → Bool} {a : Arrival} {params : Json}
    (hw : c.wait method accept a = (.ok (some params), d)) :
    ∃ n, fits method accept n = true ∧ n.params.getD .null = params ∧
      (n ∈ c.kept ∨ Brought (c.inbox ++ a.messages) n) := by
  obtain ⟨found, e, hk, hr, -⟩ | ⟨-, hh⟩ := wait_cases hw
  · obtain ⟨⟨n, left⟩, hf, he⟩ := Option.map_eq_some_iff.mp hk
    cases he
    obtain ⟨hn, hfits, -⟩ := takeFirst?_mem _ hf
    obtain rfl := Option.some.inj (Except.ok.inj hr)
    exact ⟨n, hfits, rfl, Or.inl hn⟩
  · generalize hres : (Except.ok (some params) : Except ServiceError (Option Json)) = r at hh
    generalize hq : c.inbox ++ a.messages = queue at hh
    cases hh with
    | exhausted => exact absurd hres (by unfold noNotification; split <;> simp)
    | undecodable | unanswered => exact absurd hres (by simp)
    | @picked passed rest m msg found e _ hm hpick =>
        obtain rfl := Except.ok.inj hres
        obtain ⟨n, rfl, hfits, heq⟩ := pickNotification_eq_some hpick
        exact ⟨n, hfits, (Option.some.inj heq).symm, Or.inr ⟨m, by simp, hm⟩⟩

theorem Fresh.found {method : String} {accept : Json → Bool} {a : Arrival} {params : Json}
    (h : Fresh p ms c) (hp : ∀ n, fits method accept n = true → p n = true)
    (hw : c.wait method accept a = (.ok (some params), d)) :
    ∃ n, fits method accept n = true ∧ n.params.getD .null = params ∧
      Brought (ms ++ a.messages) n := by
  obtain ⟨n, hfits, hparams, hn | hn⟩ := wait_found hw
  · exact ⟨n, hfits, hparams, (h.kept n hn (hp n hfits)).mono (List.subset_append_left _ _)⟩
  · exact ⟨n, hfits, hparams, hn.mono (h.deliver a).inbox⟩

end Client

namespace Session

open Client (Fresh Brought fits answersTo)

/-! ## Fresh diagnostics about a document -/

/-- Diagnostics about a document. -/
def concerns (uri : String) (n : Notification) : Bool :=
  fits diagnosticsMethod (isAbout uri) n

theorem concerns_iff {uri : String} {n : Notification} :
    concerns uri n = true ↔
      n.method = diagnosticsMethod ∧ ∃ params, n.params = some params ∧
        params.memberD "uri" = .str uri := by
  have habout : ∀ params, isAbout uri params = true ↔ params.memberD "uri" = .str uri := by
    intro params
    rw [isAbout, beq_iff_eq, Json.text?_eq_some_iff]
  rw [concerns, fits, Bool.and_eq_true, beq_iff_eq, Option.any_eq_true]
  simp only [habout]

/-- What a configuration that succeeds leaves behind: its file is the current one, with the
document `d`, whose text was sent under its version, and there are no diagnostics about it, neither
kept nor unread. -/
structure Settled (s : Session) (o : Service.Options) (d : Document) (t : Session) : Prop where
  current : t.current = some o.fileName
  document : t.documents.lookup o.fileName = some d
  sent : ∃ text message answers, o.text = some text ∧
    (message = changeMessage d.uri d.version text ∨
      (message = openMessage d.uri o.dialect text ∧ d.version = 1)) ∧
    t.client.written = s.client.written ++ settingsNotice o.settings :: message :: answers ∧
    ∀ v ∈ answers, ∃ id, v = nullAnswer id
  inbox : t.client.inbox = []
  kept : ∀ n ∈ t.client.kept, concerns d.uri n = false

theorem textMessage_cases (s : Session) (d : Dialect) (text : String) :
    s.textMessage d text
        = changeMessage (s.nextDocument d.fileName).uri (s.nextDocument d.fileName).version text ∨
      (s.textMessage d text = openMessage (s.nextDocument d.fileName).uri d text ∧
        (s.nextDocument d.fileName).version = 1) := by
  rw [textMessage, nextDocument]
  cases s.documents.lookup d.fileName with
  | some doc => exact Or.inl rfl
  | none => exact Or.inr ⟨rfl, rfl⟩

theorem settled_of_configure {s t : Session} {o : Service.Options} {a : Arrival}
    (h : s.configure o a = (.ok (), t)) : Settled s o (s.nextDocument o.fileName) t := by
  generalize hr : (Except.ok () : Except ServiceError Unit) = r at h
  cases configure_cases h with
  | refused | textless | unsent | unsettled => exact absurd hr (by simp)
  | @settled text u c htext _ _ hu hh =>
      obtain ⟨passed, had⟩ := hh.answered
      have hinbox : c.inbox = [] := Client.inbox_of_drained (fun _ => rfl) hh
      refine ⟨rfl, ?_, ⟨text, s.textMessage o.dialect text, answersTo passed, htext,
        textMessage_cases s o.dialect text, written_revised hu had.written, ?_⟩,
        hinbox, fun n hn => ?_⟩
      · rw [hu]
        exact (lookup_putDocument _ _ _ _).trans (if_pos rfl)
      · exact fun _ => Client.eq_nullAnswer_of_mem_answersTo
      · simpa [concerns] using (List.mem_filter.mp hn).2

theorem Settled.fresh {s t : Session} {o : Service.Options} {d : Document}
    (h : Settled s o d t) : Fresh (concerns d.uri) [] t.client where
  inbox m hm := by
    rw [h.inbox] at hm
    exact hm
  kept n hn hp := by
    rw [h.kept n hn] at hp
    exact absurd hp (by simp)

theorem fresh_run {s : Session} {p : Notification → Bool} {ms : List Json}
    (h : Fresh p ms s.client) {call : Call} (hconf : ∀ o a, call ≠ .configure o a) :
    Fresh p (ms ++ call.messages) (call.run s).2.client := by
  cases call with
  | configure o a => exact absurd rfl (hconf o a)
  | arrive a => exact h.deliver a
  | prepare a =>
      rcases hrun : s.prepare a with ⟨r, t⟩
      simp only [Call.run, hrun]
      cases prepare_cases hrun with
      | idle => exact h.deliver a
      | waited _ hwait => exact h.wait hwait
  | complete q a =>
      rcases hrun : s.complete q a with ⟨r, t⟩
      simp only [Call.run, hrun]
      cases complete_cases hrun with
      | refused =>
          have hskipped : Fresh p ms s.client.skipped := ⟨h.inbox, h.kept⟩
          exact hskipped.mono (List.subset_append_left _ _)
      | asked _ hh =>
          have hasked : Fresh p ms (s.client.asked completionMethod (s.askedParams q)) :=
            ⟨h.inbox, h.kept⟩
          exact (hasked.deliver a).halts hh

theorem fresh_afterCalls {p : Notification → Bool} (calls : List Call) :
    ∀ {s : Session} {ms : List Json}, Fresh p ms s.client →
      (∀ call ∈ calls, ∀ o a, call ≠ .configure o a) →
      Fresh p (ms ++ calls.flatMap Call.messages) (afterCalls s calls).client ∧
        (afterCalls s calls).currentDocument? = s.currentDocument? := by
  induction calls with
  | nil =>
      intro s ms h _
      exact ⟨by simpa [afterCalls] using h, rfl⟩
  | cons call rest ih =>
      intro s ms h hconf
      have hcall := hconf call List.mem_cons_self
      obtain ⟨hfresh, hcurrent⟩ := ih (fresh_run h hcall)
        fun c hc => hconf c (List.mem_cons_of_mem _ hc)
      refine ⟨?_, hcurrent.trans ?_⟩
      · rw [List.flatMap_cons, ← List.append_assoc]
        exact hfresh
      · rw [(spared_run s hcall).rest]
        rfl

/-! ## What ends a wait -/

/-- The message `m` publishes diagnostics with these parameters, and they are about the document
and name no other version of it. -/
structure Shows (d : Document) (m params : Json) : Prop where
  message : Message.ofJson? m = some (.notification ⟨diagnosticsMethod, some params⟩)
  uri : params.memberD "uri" = .str d.uri
  version : ∀ v, (params.memberD "version").signed64? = some v → v = d.version

theorem shows_of_fits {d : Document} {n : Notification} {m : Json}
    (hm : Message.ofJson? m = some (.notification n))
    (h : fits diagnosticsMethod (shows d) n = true) : Shows d m (n.params.getD .null) := by
  obtain ⟨method, params⟩ := n
  simp only [fits, Bool.and_eq_true, beq_iff_eq] at h
  obtain ⟨rfl, hany⟩ := h
  cases params with
  | none => exact absurd hany (by simp)
  | some params =>
      simp only [Option.any_some, shows, Bool.and_eq_true] at hany
      obtain ⟨habout, hversion⟩ := hany
      refine ⟨hm, Json.text?_eq_some (by simpa [isAbout] using habout), fun v hv => ?_⟩
      simp only [Option.getD_some] at hv
      rw [hv] at hversion
      simpa using hversion

theorem concerns_of_fits {d : Document} {n : Notification}
    (h : fits diagnosticsMethod (shows d) n = true) : concerns d.uri n = true := by
  simp only [concerns, fits, Bool.and_eq_true] at h ⊢
  refine ⟨h.1, ?_⟩
  obtain ⟨params, hp, hshows⟩ := Option.any_eq_true _ _ |>.mp h.2
  rw [hp]
  exact (Bool.and_eq_true _ _ ▸ hshows).1

/-- **Only diagnostics for the new text end the wait.**  A configuration that succeeds has sent a
text as some version of its document and leaves no diagnostics about the document behind.  When a
preparation after it, with any calls but configurations in between, finds the server ready, then its
wait was ended by diagnostics about this document that name no other version, and the message that
brought them arrived after the configuration had emptied the inbox. -/
theorem readiness_is_fresh {s s₁ s₂ : Session} {o : Service.Options} {a b : Arrival}
    {between : List Call} (hconf : s.configure o a = (.ok (), s₁))
    (hbetween : ∀ call ∈ between, ∀ o a, call ≠ .configure o a)
    (hprep : (afterCalls s₁ between).prepare b = (.ok .ready, s₂)) :
    ∃ d, Settled s o d s₁ ∧
      ∃ m params, m ∈ between.flatMap Call.messages ++ b.messages ∧ Shows d m params ∧
        (afterCalls s₁ between).client.wait diagnosticsMethod (shows d) b
          = (.ok (some params), s₂.client) := by
  have hsettled := settled_of_configure hconf
  refine ⟨s.nextDocument o.fileName, hsettled, ?_⟩
  obtain ⟨hfresh, hcurrent⟩ := fresh_afterCalls between hsettled.fresh hbetween
  have hdocument : (afterCalls s₁ between).currentDocument?
      = some (s.nextDocument o.fileName) := by
    rw [hcurrent, currentDocument?, hsettled.current]
    exact hsettled.document
  generalize hr : (Except.ok Readiness.ready : Except ServiceError Readiness) = r at hprep
  cases prepare_cases hprep with
  | idle hnone => exact absurd (hnone.symm.trans hdocument) (by simp)
  | @waited d x c hd hwait =>
      obtain rfl := Option.some.inj (hd.symm.trans hdocument)
      match x with
      | .error e => exact absurd hr (by simp [Except.map])
      | .ok none => exact absurd hr (by simp [Except.map, readinessOf])
      | .ok (some params) =>
          obtain ⟨n, hfits, rfl, m, hmem, hm⟩ := hfresh.found (fun n => concerns_of_fits) hwait
          exact ⟨m, _, hmem, shows_of_fits hm hfits, hwait⟩

/-- Diagnostics about a document, as a server writes them. -/
def published (uri : String) (version : Json) : Json :=
  .obj [("jsonrpc", .str "2.0"), ("method", .str diagnosticsMethod),
    ("params", .obj [("uri", .str uri), ("version", version)])]

/-- A session with old diagnostics in its inbox. -/
def staleSession : Session where
  client := { inbox := [published "file:///main.ts" .null] }
  rootUri := "file:///"
  options := {}

/-- A question that is not answered; meanwhile diagnostics arrive for two versions. -/
def overheardQuestion : Call :=
  .complete ⟨"main.ts", 0, 0, 0, "a"⟩
    { messages := [published "file:///main.ts" (.int 7), published "file:///main.ts" (.int 1)] }

/-- The old diagnostics are forgotten, and those that arrived with the question are found. -/
theorem readiness_is_fresh_after_question : ∃ s₁ s₂,
    staleSession.configure ⟨some "a", .typeScript, .null⟩ {} = (.ok (), s₁) ∧
    (afterCalls s₁ [overheardQuestion]).prepare {} = (.ok .ready, s₂) ∧
    ∃ d, Settled staleSession ⟨some "a", .typeScript, .null⟩ d s₁ ∧
      ∃ m params, m ∈ [overheardQuestion].flatMap Call.messages ++ [] ∧ Shows d m params ∧
        (afterCalls s₁ [overheardQuestion]).client.wait diagnosticsMethod (shows d) {}
          = (.ok (some params), s₂.client) := by
  obtain ⟨s₁, s₂, hconf, hprep⟩ : ∃ s₁ s₂,
      staleSession.configure ⟨some "a", .typeScript, .null⟩ {} = (.ok (), s₁) ∧
      (afterCalls s₁ [overheardQuestion]).prepare {} = (.ok .ready, s₂) :=
    ⟨(staleSession.configure ⟨some "a", .typeScript, .null⟩ {}).2, _,
      Prod.ext rfl rfl, Prod.ext rfl rfl⟩
  refine ⟨s₁, s₂, hconf, hprep, readiness_is_fresh hconf ?_ hprep⟩
  intro call hcall o a
  rw [List.mem_singleton.mp hcall]
  exact Call.noConfusion

end Session

end CompletionCheck.Lsp
