import CompletionCheck.Proofs.Lsp.Contact
import CompletionCheck.Proofs.Lsp.Readiness

/-!
# Documents under the announced root

The URI of the workspace and the URIs of its documents come about in different ways: the one is
made of a path, name by name, the others by joining a name to it.  Were they to disagree, the
documents would lie outside the workspace that the server was told of.

They agree because of how the first one looks (`IsDirectoryUri`).  It ends in a slash, and none of
its characters begins a query or a fragment, whatever the path was made of.  So joining takes
nothing away.  What remains is that every place where a session names a document, in what it writes
as in what it looks for among diagnostics, takes the URI from there.  What a call may write is listed
in `Call.Utters`, and the documents that are looked for have the right URIs by `Named`, which calls
keep even where they fail.
-/

namespace CompletionCheck.Lsp

/-! ## The URI of a workspace -/

/-- A character that can only stand for a part of a path: it is visible, begins neither a query
nor a fragment, and is not a slash in disguise. -/
def IsPathChar (c : Char) : Prop :=
  0x20 < c.toNat ∧ c.toNat < 0x7f ∧ c ≠ '?' ∧ c ≠ '#' ∧ c ≠ '\\'

instance : DecidablePred IsPathChar := fun _ => inferInstanceAs (Decidable (_ ∧ _))

/-- A URI that is a path between the scheme and a last slash. -/
def IsDirectoryUri (uri : String) : Prop :=
  ∃ path, uri.toList = "file://".toList ++ path ++ ['/'] ∧ ∀ c ∈ path, IsPathChar c

theorem isPathChar_of_isPlainByte {b : UInt8} (h : isPlainByte b = true) :
    IsPathChar (Char.ofNat b.toNat) := by
  simp only [isPlainByte, Bool.and_eq_true, decide_eq_true_eq, List.all_eq_true] at h
  obtain ⟨⟨hlow, hhigh⟩, hfree⟩ := h
  have hlow' : 0x20 < b.toNat := UInt8.lt_iff_toNat_lt.mp hlow
  have hhigh' : b.toNat < 0x7f := UInt8.lt_iff_toNat_lt.mp hhigh
  have hvalid : b.toNat.isValidChar := Or.inl (by omega)
  have hcode : (Char.ofNat b.toNat).toNat = b.toNat := by
    rw [Char.ofNat, dif_pos hvalid]
    rfl
  have hother : ∀ c ∈ reservedChars, Char.ofNat b.toNat ≠ c := by
    intro c hc heq
    have hne := hfree c hc
    rw [← heq, hcode] at hne
    exact absurd hne (by simp)
  refine ⟨by rw [hcode]; exact hlow', by rw [hcode]; exact hhigh', ?_, ?_, ?_⟩
  all_goals exact hother _ (by simp [reservedChars])

theorem isPathChar_digit {n : Nat} (h : n < 16) : IsPathChar (Nat.digitChar n).toUpper := by
  revert n
  decide

theorem isPathChar_of_mem_percentByte {b : UInt8} {c : Char} (h : c ∈ percentByte b) :
    IsPathChar c := by
  rw [percentByte] at h
  have hb : b.toNat < 256 := b.toNat_lt
  split at h
  · next hplain =>
      rw [List.mem_singleton.mp h]
      exact isPathChar_of_isPlainByte hplain
  · rcases List.mem_cons.mp h with rfl | h
    · decide
    · rcases List.mem_cons.mp h with rfl | h
      · exact isPathChar_digit (by omega)
      · rw [List.mem_singleton.mp h]
        exact isPathChar_digit (by omega)

/-- Whatever characters its path has, the URI of a workspace is the URI of a directory. -/
theorem isDirectoryUri_rootUri (cwd root : String) : IsDirectoryUri (rootUri cwd root) := by
  refine ⟨_, String.toList_ofList, fun c hc => ?_⟩
  obtain ⟨name, -, hc⟩ := List.mem_flatMap.mp hc
  rcases List.mem_cons.mp hc with rfl | hc
  · decide
  · obtain ⟨b, -, hc⟩ := List.mem_flatMap.mp hc
    exact isPathChar_of_mem_percentByte hc

theorem IsDirectoryUri.resolveUri {base : String} (h : IsDirectoryUri base) (name : String) :
    resolveUri base name = base ++ name := by
  obtain ⟨path, hbase, -⟩ := h
  have hlast : (base.toList.reverse.dropWhile (· ≠ '/')).reverse = base.toList := by
    rw [hbase, List.reverse_append]
    simp
  rw [Lsp.resolveUri, hlast, ← String.toList_append, String.ofList_toList]

namespace Session

open Client (Brought answersTo)
open Service (Request)

/-! ## Where a message names a document -/

def documentMethods : List String :=
  ["textDocument/didOpen", "textDocument/didChange", completionMethod]

/-- The URI under which a message names a document. -/
def documentUri (v : Json) : Json :=
  ((v.memberD "params").memberD "textDocument").memberD "uri"

def Call.file? : Call → Option String
  | .configure o _ => some o.fileName
  | .complete q _ => some q.fileName
  | .prepare _ | .arrive _ => none

/-- If a message names a document, it is the file of a call; the file of a dialect it names under
`base`. -/
def NamesUnder (base : String) (call : Call) (v : Json) : Prop :=
  ∀ method ∈ documentMethods, methodOf? v = some method →
    ∃ file, call.file? = some file ∧
      ∀ d : Dialect, file = d.fileName → documentUri v = .str (base ++ d.fileName)

variable {base uri : String} {call : Call} {s : Session}

theorem documentUri_openMessage (uri : String) (d : Dialect) (text : String) :
    documentUri (openMessage uri d text) = .str uri := by
  simp [documentUri, openMessage, openParams, Json.memberD, Json.member?_ofMembers,
    Json.lookup_cons_ite, notificationValue]

theorem documentUri_changeMessage (uri : String) (version : Nat) (text : String) :
    documentUri (changeMessage uri version text) = .str uri := by
  simp [documentUri, changeMessage, changeParams, Json.memberD, Json.member?_ofMembers,
    Json.lookup_cons_ite, notificationValue]

theorem documentUri_question (s : Session) (q : Request) (n : Nat) :
    documentUri (requestValue n completionMethod (s.askedParams q))
      = .str (resolveUri s.rootUri q.fileName) := by
  rw [documentUri, memberD_params_requestValue]
  simp [askedParams, completionParams, Json.memberD, Json.member?_ofMembers, Json.lookup_cons_ite]

theorem documentUri_textMessage (s : Session) (d : Dialect) (text : String) :
    documentUri (s.textMessage d text) = .str (s.nextDocument d.fileName).uri := by
  rcases textMessage_cases s d text with h | ⟨h, -⟩
  · rw [h, documentUri_changeMessage]
  · rw [h, documentUri_openMessage]

/-! ## What a call may say -/

/-- The messages that a call of a session may write. -/
inductive Call.Utters (s : Session) : Call → Json → Prop
  | settings {o : Service.Options} {a : Arrival} :
      Utters s (.configure o a) (settingsNotice o.settings)
  | text {o : Service.Options} {a : Arrival} {text : String} : o.text = some text →
      Utters s (.configure o a) (s.textMessage o.dialect text)
  | question {q : Request} {a : Arrival} : Utters s (.complete q a)
      (requestValue s.client.nextId completionMethod (s.askedParams q))
  | answer {call : Call} (id : Id) : Utters s call (nullAnswer id)

theorem utters_answersTo (s : Session) (call : Call) (ms : List Json) :
    ∀ v ∈ answersTo ms, call.Utters s v := by
  intro v hv
  obtain ⟨id, rfl⟩ := Client.eq_nullAnswer_of_mem_answersTo hv
  exact .answer id

/-- A call writes nothing else, and it need not come to writing all of it. -/
theorem utters_run (s : Session) (call : Call) :
    ∃ added, (call.run s).2.client.written = s.client.written ++ added ∧
      ∀ v ∈ added, call.Utters s v := by
  have nothing : ∃ added, s.client.written = s.client.written ++ added ∧
      ∀ v ∈ added, call.Utters s v :=
    ⟨[], (List.append_nil _).symm, fun _ hv => absurd hv List.not_mem_nil⟩
  cases call with
  | arrive a => exact nothing
  | prepare a =>
      rcases hrun : s.prepare a with ⟨r, t⟩
      simp only [Call.run, hrun]
      cases prepare_cases hrun with
      | idle => exact nothing
      | waited _ hwait =>
          obtain ⟨params, e, hk, -, rfl⟩ | ⟨-, hh⟩ := Client.wait_cases hwait
          · obtain ⟨kept, rfl⟩ := Client.takeKept?_frame hk
            exact nothing
          · obtain ⟨passed, had⟩ := hh.answered
            exact ⟨_, had.written, utters_answersTo s _ passed⟩
  | complete q a =>
      rcases hrun : s.complete q a with ⟨r, t⟩
      simp only [Call.run, hrun]
      cases complete_cases hrun with
      | refused => exact nothing
      | asked _ hh =>
          obtain ⟨passed, had⟩ := hh.answered
          refine ⟨_ :: answersTo passed, had.written.trans (List.append_assoc ..), ?_⟩
          exact List.forall_mem_cons.mpr ⟨.question, utters_answersTo s _ passed⟩
  | configure o a =>
      rcases hrun : s.configure o a with ⟨r, t⟩
      simp only [Call.run, hrun]
      cases configure_cases hrun with
      | refused => exact nothing
      | textless | unsent => exact ⟨_, rfl, List.forall_mem_singleton.mpr .settings⟩
      | unsettled htext _ _ hu hh | settled htext _ _ hu hh =>
          obtain ⟨passed, had⟩ := hh.answered
          refine ⟨_, written_revised hu had.written, ?_⟩
          exact List.forall_mem_cons.mpr ⟨.settings,
            List.forall_mem_cons.mpr ⟨.text htext, utters_answersTo s _ passed⟩⟩

/-! ## Sessions under a root -/

/-- The session names its documents under `base`, which is the URI of a directory. -/
structure Rooted (base : String) (s : Session) : Prop where
  directory : IsDirectoryUri base
  rootUri : s.rootUri = base
  named : s.Named
  current : ∀ file, s.current = some file → (s.documents.lookup file).isSome

theorem Rooted.resolveUri (h : Rooted base s) (name : String) :
    resolveUri s.rootUri name = base ++ name := by
  rw [h.rootUri]
  exact h.directory.resolveUri name

theorem Rooted.nextDocument (h : Rooted base s) (name : String) :
    (s.nextDocument name).uri = base ++ name :=
  (h.named.nextDocument name).trans (h.resolveUri name)

theorem Rooted.currentDocument (h : Rooted base s) {file : String} (hfile : s.current = some file) :
    ∃ version, s.currentDocument? = some ⟨base ++ file, version⟩ := by
  obtain ⟨doc, hdoc⟩ := Option.isSome_iff_exists.mp (h.current file hfile)
  have huri : doc.uri = base ++ file := (h.named file doc hdoc).trans (h.resolveUri file)
  refine ⟨doc.version, ?_⟩
  rw [currentDocument?, hfile, ← huri]
  exact hdoc

theorem Rooted.namesUnder (h : Rooted base s) {v : Json} (hv : call.Utters s v) :
    NamesUnder base call v := by
  intro method hmethod hcalls
  cases hv with
  | settings =>
      rw [settingsNotice, methodOf?_notificationValue] at hcalls
      rw [← Option.some.inj hcalls] at hmethod
      exact absurd hmethod (by decide)
  | @text o a text =>
      refine ⟨o.fileName, rfl, fun d hd => ?_⟩
      rw [documentUri_textMessage, h.nextDocument, ← hd]
      rfl
  | @question q =>
      refine ⟨q.fileName, rfl, fun d hd => ?_⟩
      rw [documentUri_question, h.resolveUri, hd]
  | answer id => exact absurd hcalls (by simp)

theorem Rooted.messages (h : Rooted base s) (call : Call) :
    ∃ added, (call.run s).2.client.written = s.client.written ++ added ∧
      ∀ v ∈ added, NamesUnder base call v := by
  obtain ⟨added, hwritten, hadded⟩ := utters_run s call
  exact ⟨added, hwritten, fun v hv => h.namesUnder (hadded v hv)⟩

theorem Rooted.sync (h : Rooted base s) {o : Service.Options} {t : Session}
    (hsync : s.sync o = (.ok uri, t)) : uri = base ++ o.fileName := by
  obtain ⟨hr, -⟩ | ⟨-, ⟨hr, -⟩ | ⟨text, -, hsend⟩⟩ := sync_cases hsync
  · exact absurd hr (by simp)
  · exact absurd hr (by simp)
  · obtain ⟨hr, -⟩ | ⟨hr, -⟩ := syncText_cases hsend
    · rw [Except.ok.inj hr]
      exact h.nextDocument o.fileName
    · exact absurd hr (by simp)

theorem uri_of_ready {d : Document} {a : Arrival} {t : Session}
    (hcurrent : s.currentDocument? = some d) (hprep : s.prepare a = (.ok .ready, t)) :
    ∃ params, params.memberD "uri" = .str d.uri ∧
      s.client.wait diagnosticsMethod (shows d) a = (.ok (some params), t.client) := by
  generalize hr : (Except.ok Readiness.ready : Except ServiceError Readiness) = r at hprep
  cases prepare_cases hprep with
  | idle hnone => exact absurd (hnone.symm.trans hcurrent) (by simp)
  | @waited d x c hd hwait =>
      obtain rfl := Option.some.inj (hd.symm.trans hcurrent)
      match x with
      | .error e => exact absurd hr (by simp [Except.map])
      | .ok none => exact absurd hr (by simp [Except.map, readinessOf])
      | .ok (some params) =>
          obtain ⟨n, hfits, hparams, -⟩ := Client.wait_found hwait
          obtain ⟨-, published, hpublished, huri⟩ := concerns_iff.mp (concerns_of_fits hfits)
          rw [hpublished] at hparams
          exact ⟨params, hparams ▸ huri, hwait⟩

/-- Everything that a session says about documents, and everything that it looks for about them,
is under `base`. -/
structure DocumentsUnder (base : String) (s : Session) : Prop where
  /-- Every message of a call that names a document names the file of the call. -/
  messages : ∀ call : Call, ∃ added,
    (call.run s).2.client.written = s.client.written ++ added ∧
      ∀ v ∈ added, NamesUnder base call v
  /-- A configuration that succeeds goes on with the URI of its file, and leaves no diagnostics
  with this URI behind. -/
  forgets : ∀ o a t, s.configure o a = (.ok (), t) →
    (∃ u, s.sync o = (.ok (base ++ o.fileName), u)) ∧
      ∀ n ∈ t.client.kept, n.method = diagnosticsMethod →
        ∀ params, n.params = some params → params.memberD "uri" ≠ .str (base ++ o.fileName)
  /-- A preparation waits for diagnostics with the URI of the current file, and for no others. -/
  waits : ∀ file, s.current = some file → ∃ version,
    s.currentDocument? = some ⟨base ++ file, version⟩ ∧
      ∀ a t, s.prepare a = (.ok .ready, t) →
        ∃ params, params.memberD "uri" = .str (base ++ file) ∧
          s.client.wait diagnosticsMethod (shows ⟨base ++ file, version⟩) a
            = (.ok (some params), t.client)

theorem Rooted.documentsUnder (h : Rooted base s) : DocumentsUnder base s where
  messages := h.messages
  forgets o a t hconf := by
    constructor
    · rcases hsync : s.sync o with ⟨e | uri, u⟩
      · rw [configure, hsync] at hconf
        exact absurd (congrArg Prod.fst hconf) (by simp)
      · rw [h.sync hsync]
        exact ⟨u, rfl⟩
    · intro n hn hmethod params hparams huri
      have hkept := (settled_of_configure hconf).kept n hn
      rw [h.nextDocument] at hkept
      exact absurd (concerns_iff.mpr ⟨hmethod, params, hparams, huri⟩) (by rw [hkept]; simp)
  waits file hfile := by
    obtain ⟨version, hcurrent⟩ := h.currentDocument hfile
    exact ⟨version, hcurrent, fun a t hprep => uri_of_ready hcurrent hprep⟩

/-! ## Every run -/

theorem Named.afterCalls (calls : List Call) : ∀ {s : Session}, s.Named →
    (Session.afterCalls s calls).Named := by
  induction calls with
  | nil => intro s h; exact h
  | cons call rest ih => intro s h; exact ih (h.run call)

variable {w : Option Nat} {cwd : String} {options : Options} {settings : Json} {a : Arrival}
  {c : Client}

theorem rooted_afterCalls (h : connect { writesLeft := w } cwd options settings a = (.ok s, c))
    (calls : List Call) : Rooted (Lsp.rootUri cwd options.root) (afterCalls s calls) := by
  have hstep := (InStep.of_connect h).of_calls calls
  have hnamed : s.Named := by
    obtain ⟨_, _, -, rfl⟩ := connect_cases h
    intro name doc hdoc
    exact absurd hdoc (by simp)
  exact ⟨isDirectoryUri_rootUri cwd options.root, hstep.rootUri, hnamed.afterCalls calls,
    hstep.current⟩

/-- What has been written begins with the request that tells the server its workspace. -/
def Announces (base : String) (written : List Json) : Prop :=
  ∃ greeting rest, written = greeting :: rest ∧ methodOf? greeting = some "initialize" ∧
    (greeting.memberD "params").memberD "rootUri" = .str base

theorem announces_of_connect
    (h : connect { writesLeft := w } cwd options settings a = (.ok s, c)) :
    Announces (Lsp.rootUri cwd options.root) s.client.written := by
  obtain ⟨result, e, hh, rfl⟩ := connect_cases h
  obtain ⟨passed, had⟩ := hh.answered
  refine ⟨requestValue 1 "initialize"
    (greetingParams (Lsp.rootUri cwd options.root) options settings),
    answersTo passed ++ [notificationValue "initialized" (.obj [])], ?_,
    methodOf?_requestValue .., ?_⟩
  · show e.written ++ [_] = _
    rw [had.written]
    rfl
  · rw [memberD_params_requestValue]
    simp [greetingParams, Json.memberD, Json.member?_ofMembers, Json.lookup_cons_ite]

/-- **Documents lie under the announced root.**  A session that has begun has announced a URI, which
is that of its root directory.  After every run of calls, whatever arrives, whatever fails, and from
whichever message on nothing can be written, whatever it says about documents, and whatever it looks
for about them, has this URI followed by the name of the file. -/
theorem documents_under_announced_root
    (h : connect { writesLeft := w } cwd options settings a = (.ok s, c)) (calls : List Call) :
    Announces (Lsp.rootUri cwd options.root) s.client.written ∧
      IsDirectoryUri (Lsp.rootUri cwd options.root) ∧
      DocumentsUnder (Lsp.rootUri cwd options.root) (afterCalls s calls) :=
  ⟨announces_of_connect h, isDirectoryUri_rootUri cwd options.root,
    (rooted_afterCalls h calls).documentsUnder⟩

/-- A first configuration, a question, and a second configuration, which finds diagnostics. -/
def visits : List Call :=
  [.configure ⟨some "a", .typeScript, .null⟩ {},
   .complete ⟨"main.ts", 0, 0, 0, "a"⟩ {},
   .configure ⟨some "b", .typeScript, .null⟩
     { messages := [published "file:///../ws%20%231/main.ts" .null] }]

/-- A root above the working directory, with characters that mean something else in a URI. -/
theorem documents_under_announced_root_escaped : ∃ s c,
    connect {} "/" { root := "../ws #1" } .null
        { messages := [.obj [("jsonrpc", .str "2.0"), ("id", .int 1), ("result", .null)]] }
          = (.ok s, c) ∧
      Lsp.rootUri "/" "../ws #1" = "file:///../ws%20%231/" ∧
      ((afterCalls s visits).client.written.map documentUri).filterMap Json.text?
        = List.replicate 3 "file:///../ws%20%231/main.ts" ∧
      (afterCalls s visits).client.kept.length = 0 ∧
      Announces (Lsp.rootUri "/" "../ws #1") s.client.written ∧
      IsDirectoryUri (Lsp.rootUri "/" "../ws #1") ∧
      DocumentsUnder (Lsp.rootUri "/" "../ws #1") (afterCalls s visits) := by
  obtain ⟨s, c, h, huris, hkept⟩ : ∃ s c,
      connect {} "/" { root := "../ws #1" } .null
        { messages := [.obj [("jsonrpc", .str "2.0"), ("id", .int 1), ("result", .null)]] }
          = (.ok s, c) ∧
      ((afterCalls s visits).client.written.map documentUri).filterMap Json.text?
        = List.replicate 3 "file:///../ws%20%231/main.ts" ∧
      (afterCalls s visits).client.kept.length = 0 := ⟨_, _, rfl, rfl, rfl⟩
  exact ⟨s, c, h, rfl, huris, hkept, documents_under_announced_root h visits⟩

end Session

end CompletionCheck.Lsp
