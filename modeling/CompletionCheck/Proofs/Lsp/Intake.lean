import CompletionCheck.Proofs.Lsp.Written

/-!
# How a client goes through its inbox

A client looks at incoming messages in three places: it looks for the response to its request, it
looks for a notification, and it takes in everything there is.  All three go through the messages
in their order and do the same with a message that does not end them: a request is answered, a
response is dropped, and a notification is kept or dropped.  `search` is this loop with what ends
it as a parameter; each of the three is one instance.

`Halts` lists the four ways in which the loop ends, and `search_halts` says that there are no
others.  In all of them the messages split into those that were passed, of which nothing is left
but the answers and the notifications kept, perhaps one that ended the loop, and the rest, which
stays in the inbox.
-/

namespace CompletionCheck.Lsp.Client

open Service (Outcome)

variable {α : Type}

/-- What a client does with a message that it passes. -/
def pass (keeping : Bool) (c : Client) : Message → Outcome Client Unit
  | .response _ _ => (.ok (), c)
  | .notification n => (.ok (), if keeping then c.keep n else c)
  | .request id _ _ => c.answer id

/-- Goes through messages until one is picked; `atEnd` is what comes out when none is, and may
depend on whether more can arrive. -/
def search (keeping : Bool) (pick : Message → Option α) (atEnd : Bool → Except ServiceError α) :
    List Json → Client → Outcome Client α
  | [], c => (atEnd c.ended, c.leave [])
  | m :: rest, c =>
    match Message.ofJson? m with
    | none => (.error (.protocol .undecodableMessage), c.leave rest)
    | some msg =>
      match pick msg with
      | some a => (.ok a, c.leave rest)
      | none =>
        match c.pass keeping msg with
        | (.ok (), c) => search keeping pick atEnd rest c
        | (.error e, c) => (.error e, c.leave rest)

/-! ## The three instances -/

def pickResponse (id : Nat) : Message → Option (Except RpcError Json)
  | .response rid result => if rid = .number id then some result else none
  | _ => none

def pickNotification (method : String) (accept : Json → Bool) : Message → Option (Option Json)
  | .notification n => if fits method accept n then some (some (n.params.getD .null)) else none
  | _ => none

/-- What comes of a search for a response that finds none. -/
def noResponse (method : String) (limit : Nat) (ended : Bool) :
    Except ServiceError (Except RpcError Json) :=
  .error (if ended then .exited else .timeout method limit)

/-- What comes of a search for a notification that finds none. -/
def noNotification (ended : Bool) : Except ServiceError (Option Json) :=
  if ended then .error .exited else .ok none

theorem pickResponse_eq_some {id : Nat} {msg : Message} {result : Except RpcError Json}
    (h : pickResponse id msg = some result) : msg = .response (.number id) result := by
  cases msg with
  | response rid r =>
      simp only [pickResponse] at h
      split at h
      · next hid => cases h; rw [hid]
      · exact absurd h (by simp)
  | notification | request => exact absurd h (by simp [pickResponse])

theorem pickNotification_eq_some {method : String} {accept : Json → Bool} {msg : Message}
    {found : Option Json} (h : pickNotification method accept msg = some found) :
    ∃ n, msg = .notification n ∧ fits method accept n = true ∧
      found = some (n.params.getD .null) := by
  cases msg with
  | response | request => exact absurd h (by simp [pickNotification])
  | notification n =>
      simp only [pickNotification] at h
      split at h
      · next hfits => exact ⟨n, rfl, hfits, (Option.some.inj h).symm⟩
      · exact absurd h (by simp)

theorem ne_of_pickResponse_eq_none {id : Nat} {msg : Message} (h : pickResponse id msg = none)
    (result : Except RpcError Json) : msg ≠ .response (.number id) result := by
  rintro rfl
  exact absurd h (by simp [pickResponse])

theorem findResponse_eq_search (method : String) (limit id : Nat) (ms : List Json) :
    ∀ c : Client, findResponse method limit id ms c
      = search true (pickResponse id)
          (noResponse method limit) ms c := by
  induction ms with
  | nil => intro c; rfl
  | cons m rest ih =>
      intro c
      rw [findResponse, search]
      cases hm : Message.ofJson? m with
      | none => rfl
      | some msg =>
          cases msg with
          | response rid result =>
              by_cases hid : rid = .number id <;> simp [pickResponse, hid, pass, ih]
          | notification n => simp [pickResponse, pass, ih]
          | request rid _ _ =>
              simp only [pickResponse, pass]
              rcases hans : c.answer rid with ⟨_ | _, d⟩
              · rfl
              · exact ih d

theorem findNotification_eq_search (method : String) (accept : Json → Bool) (ms : List Json) :
    ∀ c : Client, findNotification method accept ms c
      = search false (pickNotification method accept)
          noNotification ms c := by
  induction ms with
  | nil => intro c; rfl
  | cons m rest ih =>
      intro c
      rw [findNotification, search]
      cases hm : Message.ofJson? m with
      | none => rfl
      | some msg =>
          cases msg with
          | response rid result => simp [pickNotification, pass, ih]
          | notification n =>
              by_cases hn : fits method accept n = true <;> simp [pickNotification, hn, pass, ih]
          | request rid _ _ =>
              simp only [pickNotification, pass]
              rcases hans : c.answer rid with ⟨_ | _, d⟩
              · rfl
              · exact ih d

theorem drain_eq_search (ms : List Json) :
    ∀ c : Client, drain ms c = search true (fun _ => none) (fun _ => .ok ()) ms c := by
  induction ms with
  | nil => intro c; rfl
  | cons m rest ih =>
      intro c
      rw [drain, search]
      cases hm : Message.ofJson? m with
      | none => rfl
      | some msg =>
          cases msg with
          | response rid result => simp [pass, ih]
          | notification n => simp [pass, ih]
          | request rid _ _ =>
              simp only [pass]
              rcases hans : c.answer rid with ⟨_ | _, d⟩
              · rfl
              · exact ih d

/-! ## Passing messages -/

/-- The answer that a message calls for. -/
def answerOf? : Message → Option Json
  | .request id _ _ => some (nullAnswer id)
  | _ => none

/-- The answers that the requests among messages call for. -/
def answersTo (ms : List Json) : List Json :=
  ms.filterMap fun m => (Message.ofJson? m).bind answerOf?

theorem answersTo_append (xs ys : List Json) :
    answersTo (xs ++ ys) = answersTo xs ++ answersTo ys :=
  List.filterMap_append

/-- `Passes keeping pick c ms d`: the messages `ms`, none of which is picked, are all passed, and
`c` becomes `d` by it. -/
inductive Passes (keeping : Bool) (pick : Message → Option α) : Client → List Json → Client → Prop
  | nil (c : Client) : Passes keeping pick c [] c
  | cons {c d e : Client} {m : Json} {msg : Message} {ms : List Json} :
      Message.ofJson? m = some msg → pick msg = none → c.pass keeping msg = (.ok (), d) →
      Passes keeping pick d ms e → Passes keeping pick c (m :: ms) e

/-- `Halts keeping pick atEnd c ms r d`: a client `c` that goes through `ms` ends with the result
`r` as the client `d`. -/
inductive Halts (keeping : Bool) (pick : Message → Option α)
    (atEnd : Bool → Except ServiceError α) (c : Client) :
    List Json → Except ServiceError α → Client → Prop
  /-- Every message was passed. -/
  | exhausted {ms : List Json} {d : Client} :
      Passes keeping pick c ms d → Halts keeping pick atEnd c ms (atEnd d.ended) (d.leave [])
  /-- A message was picked. -/
  | picked {ms rest : List Json} {m : Json} {msg : Message} {a : α} {d : Client} :
      Passes keeping pick c ms d → Message.ofJson? m = some msg → pick msg = some a →
      Halts keeping pick atEnd c (ms ++ m :: rest) (.ok a) (d.leave rest)
  /-- A message made no sense. -/
  | undecodable {ms rest : List Json} {m : Json} {d : Client} :
      Passes keeping pick c ms d → Message.ofJson? m = none →
      Halts keeping pick atEnd c (ms ++ m :: rest) (.error (.protocol .undecodableMessage))
        (d.leave rest)
  /-- A request could not be answered. -/
  | unanswered {ms rest : List Json} {m : Json} {id : Id} {method : String} {params : Option Json}
      {d : Client} :
      Passes keeping pick c ms d → Message.ofJson? m = some (.request id method params) →
      pick (.request id method params) = none → d.writesLeft = some 0 →
      Halts keeping pick atEnd c (ms ++ m :: rest) (.error (.io .brokenPipe)) (d.leave rest)

variable {keeping : Bool} {pick : Message → Option α} {atEnd : Bool → Except ServiceError α}

def wrote (c : Client) (v : Json) : Client :=
  { c with writesLeft := c.writesLeft.map (· - 1), written := c.written ++ [v] }

theorem write_cases {c d : Client} {v : Json} {r : Except ServiceError Unit}
    (h : c.write v = (r, d)) :
    (r = .ok () ∧ c.writesLeft ≠ some 0 ∧ d = c.wrote v) ∨
      (r = .error (.io .brokenPipe) ∧ c.writesLeft = some 0 ∧ d = c) := by
  unfold write at h
  split at h
  · next hw => cases h; exact Or.inr ⟨rfl, hw, rfl⟩
  · next n hw =>
      cases h
      refine Or.inl ⟨rfl, ?_, ?_⟩
      · rw [hw]; simp
      · simp [wrote, hw]
  · next hw =>
      cases h
      refine Or.inl ⟨rfl, ?_, ?_⟩
      · rw [hw]; simp
      · simp [wrote, hw]

/-- What becomes of a client by messages to which it writes `answers`.  The notifications it keeps
are left out. -/
structure Answered (c : Client) (answers : List Json) (d : Client) : Prop where
  nextId : d.nextId = c.nextId
  ended : d.ended = c.ended
  written : d.written = c.written ++ answers
  unlimited : c.writesLeft = none → d.writesLeft = none
  closed : c.writesLeft = some 0 → d.writesLeft = some 0 ∧ answers = []

theorem Answered.refl (c : Client) : Answered c [] c :=
  ⟨rfl, rfl, by simp, id, fun h => ⟨h, rfl⟩⟩

theorem Answered.trans {c d e : Client} {xs ys : List Json} (h : Answered c xs d)
    (h' : Answered d ys e) : Answered c (xs ++ ys) e where
  nextId := h'.nextId.trans h.nextId
  ended := h'.ended.trans h.ended
  written := by rw [h'.written, h.written, List.append_assoc]
  unlimited hc := h'.unlimited (h.unlimited hc)
  closed hc := by
    obtain ⟨hd, rfl⟩ := h.closed hc
    obtain ⟨he, rfl⟩ := h'.closed hd
    exact ⟨he, rfl⟩

theorem answered_kept (c : Client) (kept : List Notification) : Answered c [] { c with kept } :=
  ⟨rfl, rfl, (List.append_nil _).symm, id, fun h => ⟨h, rfl⟩⟩

theorem answered_pass {c d : Client} {msg : Message} (h : c.pass keeping msg = (.ok (), d)) :
    Answered c (answerOf? msg).toList d := by
  cases msg with
  | response id result => cases h; exact .refl c
  | notification n =>
      cases h
      cases keeping with
      | true => exact answered_kept c _
      | false => exact .refl c
  | request id method params =>
      obtain ⟨-, hw, rfl⟩ | ⟨hr, -⟩ := write_cases h
      · exact ⟨rfl, rfl, rfl, fun hc => by simp [wrote, hc], fun hc => absurd hc hw⟩
      · exact absurd hr (by simp)

theorem Passes.answered {c d : Client} {ms : List Json} (h : Passes keeping pick c ms d) :
    Answered c (answersTo ms) d := by
  induction h with
  | nil c => exact .refl c
  | @cons c d e m msg ms hm _ hpass _ ih =>
      have hms : answersTo (m :: ms) = (answerOf? msg).toList ++ answersTo ms := by
        rw [answersTo, List.filterMap_cons, hm, Option.bind_some]
        cases answerOf? msg <;> rfl
      rw [hms]
      exact (answered_pass hpass).trans ih

theorem Passes.not_picked {c d : Client} {ms : List Json} (h : Passes keeping pick c ms d) :
    ∀ m ∈ ms, ∃ msg, Message.ofJson? m = some msg ∧ pick msg = none := by
  induction h with
  | nil => exact fun _ hm => absurd hm List.not_mem_nil
  | cons hm hp _ _ ih =>
      intro x hx
      rcases List.mem_cons.mp hx with rfl | hx
      · exact ⟨_, hm, hp⟩
      · exact ih x hx

theorem Halts.cons {c d e : Client} {m : Json} {msg : Message} {ms : List Json}
    {r : Except ServiceError α} (hm : Message.ofJson? m = some msg) (hp : pick msg = none)
    (hpass : c.pass keeping msg = (.ok (), d)) (h : Halts keeping pick atEnd d ms r e) :
    Halts keeping pick atEnd c (m :: ms) r e := by
  cases h with
  | exhausted hs => exact .exhausted (.cons hm hp hpass hs)
  | picked hs hx ha => exact .picked (.cons hm hp hpass hs) hx ha
  | undecodable hs hx => exact .undecodable (.cons hm hp hpass hs) hx
  | unanswered hs hx hn hw => exact .unanswered (.cons hm hp hpass hs) hx hn hw

theorem halts_head {c d : Client} {m : Json} {rest : List Json} {r : Except ServiceError α}
    (h : Halts keeping pick atEnd c ([] ++ m :: rest) r d) :
    Halts keeping pick atEnd c (m :: rest) r d := h

/-- The loop ends in one of the four ways. -/
theorem search_halts (ms : List Json) : ∀ {c d : Client} {r : Except ServiceError α},
    search keeping pick atEnd ms c = (r, d) → Halts keeping pick atEnd c ms r d := by
  induction ms with
  | nil => intro c d r h; cases h; exact .exhausted (.nil c)
  | cons m rest ih =>
      intro c d r h
      rw [search] at h
      cases hm : Message.ofJson? m with
      | none =>
          rw [hm] at h
          cases h
          exact halts_head (.undecodable (.nil c) hm)
      | some msg =>
          rw [hm] at h
          cases hp : pick msg with
          | some a =>
              simp only [hp] at h
              cases h
              exact halts_head (.picked (.nil c) hm hp)
          | none =>
              simp only [hp] at h
              rcases hpass : c.pass keeping msg with ⟨x | _, e⟩
              · -- only the answer to a request can fail
                rw [hpass] at h
                cases h
                cases msg with
                | response | notification => simp [pass] at hpass
                | request id method params =>
                    obtain ⟨h, -⟩ | ⟨h, hw, rfl⟩ := write_cases hpass
                    · exact absurd h (by simp)
                    · obtain rfl := Except.error.inj h
                      exact halts_head (.unanswered (.nil _) hm hp hw)
              · rw [hpass] at h
                exact .cons hm hp hpass (ih h)

/-- Whichever way the loop ends, the messages split into those it has taken, the first of which
were passed and answered, and those it has left. -/
theorem Halts.split {c d : Client} {ms : List Json} {r : Except ServiceError α}
    (h : Halts keeping pick atEnd c ms r d) :
    ∃ passed taken, passed <+: taken ∧ ms = taken ++ d.inbox ∧ Answered c (answersTo passed) d := by
  have leave {e : Client} {passed : List Json} (hp : Passes keeping pick c passed e)
      (rest : List Json) : Answered c (answersTo passed) (e.leave rest) :=
    ⟨hp.answered.nextId, hp.answered.ended, hp.answered.written, hp.answered.unlimited,
      hp.answered.closed⟩
  cases h with
  | exhausted hp => exact ⟨ms, ms, List.prefix_rfl, by simp [Client.leave], leave hp _⟩
  | @picked passed rest m _ _ _ hp | @undecodable passed rest m _ hp
  | @unanswered passed rest m _ _ _ _ hp =>
      exact ⟨passed, passed ++ [m], List.prefix_append _ _, by simp [Client.leave], leave hp _⟩

/-- A loop that never fails to write has answered all that it has taken, also the message that
ended it, unless a request could end it. -/
theorem Halts.answers_taken {c d : Client} {ms : List Json} {r : Except ServiceError α}
    (h : Halts keeping pick atEnd c ms r d)
    (hcalm : ∀ id method params, pick (.request id method params) = none)
    (hr : r ≠ .error (.io .brokenPipe)) :
    ∃ taken, ms = taken ++ d.inbox ∧ Answered c (answersTo taken) d := by
  have leave {e : Client} {answers : List Json} (he : Answered c answers e) (rest : List Json) :
      Answered c answers (e.leave rest) :=
    ⟨he.nextId, he.ended, he.written, he.unlimited, he.closed⟩
  -- the last message taken calls for no answer
  have last {passed : List Json} {m : Json} (hm : answersTo [m] = []) :
      answersTo passed = answersTo (passed ++ [m]) := by
    rw [answersTo_append, hm, List.append_nil]
  cases h with
  | exhausted hp => exact ⟨ms, by simp [Client.leave], leave hp.answered _⟩
  | @picked passed rest m msg a e hp hm ha =>
      refine ⟨passed ++ [m], by simp [Client.leave], ?_⟩
      rw [← last]
      · exact leave hp.answered _
      · cases msg with
        | request id method params => exact absurd ((hcalm id method params).symm.trans ha) (by simp)
        | response | notification => simp [answersTo, hm, answerOf?]
  | @undecodable passed rest m e hp hm =>
      refine ⟨passed ++ [m], by simp [Client.leave], ?_⟩
      rw [← last]
      · exact leave hp.answered _
      · simp [answersTo, hm]
  | unanswered => exact absurd rfl hr

/-- Whichever way the loop ends, nothing comes of it but answers and notifications kept. -/
theorem Halts.answered {c d : Client} {ms : List Json} {r : Except ServiceError α}
    (h : Halts keeping pick atEnd c ms r d) : ∃ passed, Answered c (answersTo passed) d := by
  obtain ⟨passed, -, -, -, had⟩ := h.split
  exact ⟨passed, had⟩

theorem Halts.closed_of_broken {c d : Client} {ms : List Json} {r : Except ServiceError α}
    (h : Halts keeping pick atEnd c ms r d) (hr : r = .error (.io .brokenPipe))
    (hend : ∀ ended, atEnd ended ≠ .error (.io .brokenPipe)) : d.writesLeft = some 0 := by
  cases h with
  | exhausted => exact absurd hr (hend _)
  | picked => exact absurd hr (by simp)
  | undecodable => exact absurd hr (by simp)
  | unanswered hp hm hn hw => exact hw

theorem Halts.of_ok {c d : Client} {ms : List Json} {r : Except ServiceError α} {a : α}
    (h : Halts keeping pick atEnd c ms r d) (hr : r = .ok a)
    (hend : ∀ ended, atEnd ended ≠ .ok a) :
    ∃ m ∈ ms, ∃ msg, Message.ofJson? m = some msg ∧ pick msg = some a := by
  cases h with
  | exhausted => exact absurd hr (hend _)
  | undecodable | unanswered => exact absurd hr (by simp)
  | @picked passed rest m msg b e hp hm ha =>
      obtain rfl := Except.ok.inj hr
      exact ⟨m, by simp, msg, hm, ha⟩

/-- The loop picks when there is something to pick, every message makes sense, and every answer
can be written. -/
theorem Halts.ok_of_pick {c d : Client} {ms : List Json} {r : Except ServiceError α}
    (h : Halts keeping pick atEnd c ms r d) (hopen : c.writesLeft = none)
    (hsense : ∀ m ∈ ms, ∃ msg, Message.ofJson? m = some msg)
    (hpick : ∃ m ∈ ms, ∃ msg, Message.ofJson? m = some msg ∧ pick msg ≠ none) :
    ∃ a, r = .ok a := by
  cases h with
  | exhausted hp =>
      obtain ⟨m, hmem, msg, hm, hne⟩ := hpick
      obtain ⟨other, hother, hnone⟩ := hp.not_picked m hmem
      obtain rfl := Option.some.inj (hm.symm.trans hother)
      exact absurd hnone hne
  | picked => exact ⟨_, rfl⟩
  | @undecodable passed rest m e hp hm =>
      obtain ⟨msg, hsome⟩ := hsense m (by simp)
      exact absurd (hm.symm.trans hsome) (by simp)
  | unanswered hp _ _ hclosed =>
      exact absurd ((hp.answered.unlimited hopen).symm.trans hclosed) (by simp)

theorem eq_nullAnswer_of_mem_answersTo {ms : List Json} {v : Json} (h : v ∈ answersTo ms) :
    ∃ id, v = nullAnswer id := by
  obtain ⟨m, -, hm⟩ := List.mem_filterMap.mp h
  obtain ⟨msg, -, hv⟩ := Option.bind_eq_some_iff.mp hm
  cases msg with
  | request id method params => exact ⟨id, (Option.some.inj hv).symm⟩
  | response | notification => exact absurd hv (by simp [answerOf?])

theorem filter_isCall_answersTo (ms : List Json) : (answersTo ms).filter isCall = [] := by
  refine List.filter_eq_nil_iff.mpr fun v hv => ?_
  obtain ⟨id, rfl⟩ := eq_nullAnswer_of_mem_answersTo hv
  simp

/-! ## Messages that leave no trace -/

/-- A message that is not picked and that a client passes unchanged might as well not have come:
either the loop ends before it, or it ends as it would have without it. -/
theorem search_without {m : Json} {msg : Message} (hm : Message.ofJson? m = some msg)
    (hp : pick msg = none) (htrace : ∀ c : Client, c.pass keeping msg = (.ok (), c))
    (post : List Json) (pre : List Json) : ∀ c : Client,
      (m :: post) <:+ (search keeping pick atEnd (pre ++ m :: post) c).2.inbox ∨
        search keeping pick atEnd (pre ++ m :: post) c = search keeping pick atEnd (pre ++ post) c
    := by
  induction pre with
  | nil =>
      intro c
      refine Or.inr ?_
      rw [List.nil_append, search, hm]
      simp only [hp, htrace]
      rfl
  | cons x pre ih =>
      intro c
      rw [List.cons_append, List.cons_append, search, search]
      cases hx : Message.ofJson? x with
      | none => exact Or.inl (List.suffix_append pre _)
      | some msg =>
          cases hq : pick msg with
          | some a => simp only [hq]; exact Or.inl (List.suffix_append pre _)
          | none =>
              simp only [hq]
              rcases hpass : c.pass keeping msg with ⟨_ | _, d⟩
              · exact Or.inl (List.suffix_append pre _)
              · exact ih d

end CompletionCheck.Lsp.Client
