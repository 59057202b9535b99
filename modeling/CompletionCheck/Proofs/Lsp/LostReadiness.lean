import CompletionCheck.Proofs.Lsp.Readiness

/-!
# From when on diagnostics count

A configuration sends a text and then empties the inbox.  What arrives in between is taken for old
by its place alone: it is forgotten if it is about the document, whatever version it names.  So a
server that is quick enough to publish diagnostics for the new text before the inbox is emptied is
not heard, and the wait for it runs into its limit (`readiness_lost`).

From the emptying on nothing is lost.  The wait finds diagnostics for the text that was sent
wherever they stand among the messages that have arrived since, and it finds nothing else
(`readiness_counts_from_drain`); what arrived in the configuration plays no part in it.
-/

namespace CompletionCheck.Lsp

namespace Client

variable {α : Type} (keeping : Bool) (pick : Message → Option α)
  (atEnd : Bool → Except ServiceError α)

theorem pass_of_unlimited {c : Client} (h : c.writesLeft = none) (msg : Message) :
    ∃ d, c.pass keeping msg = (.ok (), d) ∧ d.writesLeft = none := by
  rcases hpass : c.pass keeping msg with ⟨x | _, d⟩
  · cases msg with
    | response | notification => simp [pass] at hpass
    | request id method params =>
        obtain ⟨hr, -⟩ | ⟨-, hclosed, -⟩ := write_cases hpass
        · exact absurd hr (by simp)
        · exact absurd (h.symm.trans hclosed) (by simp)
  · exact ⟨d, rfl, (answered_pass hpass).unlimited h⟩

/-- A loop that reaches a message to pick picks that one or an earlier one; what stands behind it
need not make sense. -/
theorem search_picks {m : Json} {msg : Message} (hm : Message.ofJson? m = some msg)
    (hpick : pick msg ≠ none) (after : List Json) (before : List Json) :
    ∀ c : Client, c.writesLeft = none → (∀ v ∈ before, ∃ x, Message.ofJson? v = some x) →
      ∃ x a, pick x = some a ∧
        (search keeping pick atEnd (before ++ m :: after) c).1 = .ok a := by
  induction before with
  | nil =>
      intro c _ _
      obtain ⟨a, ha⟩ := Option.ne_none_iff_exists'.mp hpick
      refine ⟨msg, a, ha, ?_⟩
      rw [List.nil_append, search, hm]
      simp only [ha]
  | cons v before ih =>
      intro c hopen hsense
      obtain ⟨x, hx⟩ := hsense v List.mem_cons_self
      rw [List.cons_append, search, hx]
      cases hp : pick x with
      | some a => exact ⟨x, a, hp, by simp only [hp]⟩
      | none =>
          obtain ⟨d, hpass, hd⟩ := pass_of_unlimited keeping hopen x
          simp only [hp, hpass]
          exact ih d hd fun w hw => hsense w (List.mem_cons_of_mem _ hw)

end Client

namespace Session

open Client (fits takeFirst?_mem pickNotification noNotification)

/-! ## What the wait looks for -/

theorem fits_of_shows {d : Document} {m params : Json} (h : Shows d m params) :
    fits diagnosticsMethod (shows d) ⟨diagnosticsMethod, some params⟩ = true := by
  simp only [fits, beq_self_eq_true, Option.any_some, Bool.true_and, shows, isAbout, h.uri,
    Json.text?_str]
  cases hv : (params.memberD "version").signed64? with
  | none => rfl
  | some v => exact beq_iff_eq.mpr (h.version v hv)

variable {s s₁ t : Session} {o : Service.Options} {a between b : Arrival} {d : Document}

theorem Settled.takeKept?_none (h : Settled s o d t) (between : Arrival) :
    (t.deliver between).client.takeKept? diagnosticsMethod (shows d) = none := by
  rw [Client.takeKept?, Option.map_eq_none_iff, Option.eq_none_iff_forall_ne_some]
  rintro ⟨n, left⟩ hfound
  obtain ⟨hn, hfits, -⟩ := takeFirst?_mem _ hfound
  exact absurd ((h.kept n hn).symm.trans (concerns_of_fits hfits)) (by simp)

theorem Settled.wait_eq (h : Settled s o d t) (between b : Arrival) :
    (t.deliver between).client.wait diagnosticsMethod (shows d) b
      = Client.search false (pickNotification diagnosticsMethod (shows d)) noNotification
          (between.messages ++ b.messages) ((t.deliver between).client.deliver b) := by
  have inbox : ((t.deliver between).client.deliver b).inbox
      = between.messages ++ b.messages := by
    show (t.client.inbox ++ between.messages) ++ b.messages = _
    rw [h.inbox, List.nil_append]
  rw [Client.wait, h.takeKept?_none between]
  dsimp only
  rw [Client.findNotification_eq_search, inbox]

theorem Settled.currentDocument? (h : Settled s o d t) (between : Arrival) :
    (t.deliver between).currentDocument? = some d := by
  show t.currentDocument? = some d
  rw [Session.currentDocument?, h.current]
  exact h.document

theorem Settled.prepare_eq (h : Settled s o d t) (between b : Arrival) :
    ((t.deliver between).prepare b).1
      = ((t.deliver between).client.wait diagnosticsMethod (shows d) b).1.map readinessOf := by
  rcases hprep : (t.deliver between).prepare b with ⟨r, u⟩
  cases prepare_cases hprep with
  | idle hnone => exact absurd (hnone.symm.trans (h.currentDocument? between)) (by simp)
  | waited hd hwait =>
      obtain rfl := Option.some.inj (hd.symm.trans (h.currentDocument? between))
      rw [hwait]

/-! ## From when on diagnostics count -/

/-- **Diagnostics count from the emptying of the inbox on.**  After a configuration that succeeds,
a preparation finds the server ready when diagnostics for the text that was sent are among the
messages that have arrived since the inbox was emptied, with nothing before them that makes no
sense; and it finds it ready only then, whatever arrived in the configuration. -/
theorem readiness_counts_from_drain (hconf : s.configure o a = (.ok (), s₁))
    (hopen : s₁.client.writesLeft = none) :
    (∀ before m after params, between.messages ++ b.messages = before ++ m :: after →
        (∀ v ∈ before, ∃ msg, Message.ofJson? v = some msg) →
        Shows (s.nextDocument o.fileName) m params →
        ((s₁.deliver between).prepare b).1 = .ok .ready) ∧
      (((s₁.deliver between).prepare b).1 = .ok .ready →
        ∃ m ∈ between.messages ++ b.messages, ∃ params,
          Shows (s.nextDocument o.fileName) m params) := by
  have hsettled := settled_of_configure hconf
  rw [hsettled.prepare_eq]
  constructor
  · intro before m after params harrived hsense hshows
    obtain ⟨x, found, hfound, hresult⟩ := Client.search_picks false
      (pickNotification diagnosticsMethod (shows (s.nextDocument o.fileName))) noNotification
      hshows.message (by simp [pickNotification, fits_of_shows hshows]) after before
      ((s₁.deliver between).client.deliver b) hopen hsense
    obtain ⟨n, -, -, rfl⟩ := Client.pickNotification_eq_some hfound
    rw [hsettled.wait_eq, harrived, hresult]
    rfl
  · intro hready
    rcases hwait : (s₁.deliver between).client.wait diagnosticsMethod
      (shows (s.nextDocument o.fileName)) b with ⟨e | none | params, c⟩
    all_goals rw [hwait] at hready
    · exact absurd hready (by simp [Except.map])
    · exact absurd hready (by simp [Except.map, readinessOf])
    · obtain ⟨n, hfits, -, m, hmem, hm⟩ :=
        (hsettled.fresh.deliver between).found (fun n => concerns_of_fits) hwait
      exact ⟨m, hmem, _, shows_of_fits hm hfits⟩

def greetingAnswered : Arrival where
  messages := [nullAnswer (.number 1)]

/-- A text of the TypeScript file is sent; meanwhile `messages` arrive. -/
def textSent (messages : List Json) : Call :=
  .configure ⟨some "a", .typeScript, .null⟩ { messages }

/-- The first question about that file; `messages` arrive before its answer. -/
def answeredAfter (messages : List Json) : Call :=
  .complete ⟨"main.ts", 0, 0, 0, "a"⟩ { messages := messages ++ [nullAnswer (.number 2)] }

theorem shows_published (d : Document) (h : d.version < 0x8000000000000000) :
    Shows d (published d.uri (.int d.version))
      (.obj [("uri", .str d.uri), ("version", .int d.version)]) where
  message := rfl
  uri := rfl
  version v hv := by
    have number : (Json.int d.version).signed64? = some v := hv
    rw [Json.signed64?, if_pos (by omega)] at number
    exact (Option.some.inj number).symm

/-- Diagnostics for the text are found behind a message that is none of them, although the ones
that arrived in the configuration were forgotten. -/
theorem readiness_counts_from_drain_later : ∃ s c s₁,
    connect {} "/" {} .null greetingAnswered = (.ok s, c) ∧
    s.configure ⟨some "a", .typeScript, .null⟩
      { messages := [published "file:///main.ts" (.int 1)] } = (.ok (), s₁) ∧
    s₁.client.writesLeft = none ∧
    ((s₁.deliver { messages := [published "file:///main.ts" (.int 7)] }).prepare
      { messages := [published "file:///main.ts" (.int 1), .null] }).1 = .ok .ready := by
  obtain ⟨s, c, s₁, hconnect, hconf, hopen, params, hshows⟩ : ∃ s c s₁,
      connect {} "/" {} .null greetingAnswered = (.ok s, c) ∧
      s.configure ⟨some "a", .typeScript, .null⟩
        { messages := [published "file:///main.ts" (.int 1)] } = (.ok (), s₁) ∧
      s₁.client.writesLeft = none ∧
      ∃ params, Shows (s.nextDocument "main.ts") (published "file:///main.ts" (.int 1)) params :=
    ⟨_, _, _, Prod.ext rfl rfl, Prod.ext rfl rfl, rfl, _,
      shows_published ⟨"file:///main.ts", 1⟩ (by decide)⟩
  refine ⟨s, c, s₁, hconnect, hconf, hopen, ?_⟩
  refine (readiness_counts_from_drain hconf hopen).1 [published "file:///main.ts" (.int 7)]
    (published "file:///main.ts" (.int 1)) [.null] params rfl ?_ hshows
  intro v hv
  rw [List.mem_singleton.mp hv]
  exact ⟨_, rfl⟩

/-- **Diagnostics for the new text can be lost.**  A server publishes diagnostics for a text before
the inbox is emptied: between the sending of the first text and the emptying, or, for the second
text, ahead of its sending.  Every call succeeds, the diagnostics are about the current document
and name its version, and they are there before the wait begins; yet the wait runs into its
limit. -/
theorem readiness_lost : ∃ s c, connect {} "/" {} .null greetingAnswered = (.ok s, c) ∧
    ∀ calls ∈ [[textSent [published "file:///main.ts" (.int 1)]],
        [textSent [], answeredAfter [published "file:///main.ts" (.int 2)], textSent []]],
      (∀ r ∈ callResults s calls, r = .ok ()) ∧
      (∃ d, (afterCalls s calls).currentDocument? = some d ∧
        ∃ m ∈ calls.flatMap Call.messages, ∃ params, Shows d m params) ∧
      ((afterCalls s calls).prepare {}).1 = .ok .silent := by
  refine ⟨_, _, Prod.ext rfl rfl, ?_⟩
  intro calls hcalls
  rcases List.mem_cons.mp hcalls with rfl | hcalls
  · refine ⟨?_, ⟨⟨"file:///main.ts", 1⟩, rfl, _, List.mem_cons_self, _,
      shows_published ⟨"file:///main.ts", 1⟩ (by decide)⟩, rfl⟩
    intro r hr
    exact List.mem_singleton.mp hr
  · rw [List.mem_singleton.mp hcalls]
    refine ⟨?_, ⟨⟨"file:///main.ts", 2⟩, rfl, _, List.mem_cons_self, _,
      shows_published ⟨"file:///main.ts", 2⟩ (by decide)⟩, rfl⟩
    intro r hr
    have every : r ∈ [.ok (), .ok (), .ok ()] := hr
    simpa using every

end Session

end CompletionCheck.Lsp
