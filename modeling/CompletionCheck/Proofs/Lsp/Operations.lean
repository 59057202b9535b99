import CompletionCheck.Proofs.Lsp.Intake

/-!
# What the operations of a client can do

One lemma for each operation says everything that it can do, with the client that comes out of it.
A request that cannot be written only uses up a number; a request that is written, and a wait that
finds nothing among the notifications kept, goes through the inbox as in `Halts`.  Nothing after
this module looks into the operations again.
-/

namespace CompletionCheck.Lsp.Client

open Service (Outcome)

/-- The client that has given a number to a request and not written it. -/
def skipped (c : Client) : Client :=
  { c with nextId := c.nextId + 1 }

/-- The client that has written a request and not looked at anything since. -/
def asked (c : Client) (method : String) (params : Json) : Client :=
  c.skipped.wrote (requestValue c.nextId method params)

/-- `Asks c method params limit a r d`: a client that has written a request and then goes through
what is unread and what arrives comes out with `r`, as the client `d`. -/
def Asks (c : Client) (method : String) (params : Json) (limit : Nat) (a : Arrival) :
    Except ServiceError (Except RpcError Json) → Client → Prop :=
  Halts true (pickResponse c.nextId) (noResponse method limit)
    ((c.asked method params).deliver a) (c.inbox ++ a.messages)

theorem deliver_nothing (c : Client) : c.deliver {} = c := by
  simp [deliver]

theorem send_cases {c d : Client} {method : String} {params : Json}
    {r : Except ServiceError Nat} (h : c.send method params = (r, d)) :
    (r = .ok c.nextId ∧ c.writesLeft ≠ some 0 ∧ d = c.asked method params) ∨
      (r = .error (.io .brokenPipe) ∧ c.writesLeft = some 0 ∧ d = c.skipped) := by
  unfold send at h
  rcases hw : c.skipped.write (requestValue c.nextId method params) with ⟨r', d'⟩
  rw [show { c with nextId := c.nextId + 1 } = c.skipped from rfl, hw] at h
  obtain ⟨rfl, hopen, rfl⟩ | ⟨rfl, hclosed, rfl⟩ := write_cases hw
  · cases h; exact Or.inl ⟨rfl, hopen, rfl⟩
  · cases h; exact Or.inr ⟨rfl, hclosed, rfl⟩

theorem awaitResponse_halts {c d : Client} {method : String} {limit id : Nat}
    {r : Except ServiceError (Except RpcError Json)}
    (h : c.awaitResponse method limit id = (r, d)) :
    Halts true (pickResponse id)
      (noResponse method limit) c c.inbox r d := by
  rw [awaitResponse, findResponse_eq_search] at h
  exact search_halts c.inbox h

theorem request_cases {c d : Client} {method : String} {params : Json} {limit : Nat}
    {a : Arrival} {r : Except ServiceError (Except RpcError Json)}
    (h : c.request method params limit a = (r, d)) :
    (c.writesLeft ≠ some 0 ∧
        Halts true (pickResponse c.nextId)
          (noResponse method limit)
          ((c.asked method params).deliver a) (c.inbox ++ a.messages) r d) ∨
      (r = .error (.io .brokenPipe) ∧ c.writesLeft = some 0 ∧ d = c.skipped) := by
  unfold request at h
  rcases hs : c.send method params with ⟨r', d'⟩
  rw [hs] at h
  obtain ⟨rfl, hopen, rfl⟩ | ⟨rfl, hclosed, rfl⟩ := send_cases hs
  · exact Or.inl ⟨hopen, awaitResponse_halts h⟩
  · cases h; exact Or.inr ⟨rfl, hclosed, rfl⟩

theorem wait_cases {c d : Client} {method : String} {accept : Json → Bool} {a : Arrival}
    {r : Except ServiceError (Option Json)} (h : c.wait method accept a = (r, d)) :
    (∃ params e, c.takeKept? method accept = some (params, e) ∧ r = .ok (some params) ∧
        d = e.deliver a) ∨
      (c.takeKept? method accept = none ∧
        Halts false (pickNotification method accept)
          noNotification
          (c.deliver a) (c.inbox ++ a.messages) r d) := by
  unfold wait at h
  cases hk : c.takeKept? method accept with
  | some found =>
      rw [hk] at h
      cases h
      exact Or.inl ⟨found.1, found.2, rfl, rfl, rfl⟩
  | none =>
      simp only [hk, findNotification_eq_search] at h
      exact Or.inr ⟨rfl, search_halts _ h⟩

theorem takeFirst?_eq (q : Notification → Bool) (l : List Notification) :
    takeFirst? q l = (l.find? q).map fun n => (n, l.eraseP q) := by
  induction l with
  | nil => rfl
  | cons x rest ih =>
      rw [takeFirst?, List.find?_cons, List.eraseP_cons, ih]
      cases q x with
      | true => rfl
      | false => simp only [Bool.false_eq_true, if_false, cond_false, Option.map_map]; rfl

theorem takeFirst?_mem {q : Notification → Bool} (l : List Notification)
    {n : Notification} {left : List Notification} (h : takeFirst? q l = some (n, left)) :
    n ∈ l ∧ q n = true ∧ left ⊆ l := by
  rw [takeFirst?_eq] at h
  obtain ⟨found, hfind, heq⟩ := Option.map_eq_some_iff.mp h
  cases heq
  exact ⟨List.mem_of_find?_eq_some hfind, List.find?_some hfind, List.eraseP_subset⟩

theorem takeKept?_frame {c e : Client} {method : String} {accept : Json → Bool} {params : Json}
    (h : c.takeKept? method accept = some (params, e)) : ∃ kept, e = { c with kept } := by
  obtain ⟨found, -, hf⟩ := Option.map_eq_some_iff.mp h
  cases hf
  exact ⟨_, rfl⟩

theorem forget_cases {c d : Client} {method : String} {discard : Json → Bool}
    {r : Except ServiceError Unit} (h : c.forget method discard = (r, d)) :
    ∃ e, Halts true (fun _ => none) (fun _ => .ok ()) c c.inbox r e ∧
      ((∃ x, r = .error x ∧ d = e) ∨
        (r = .ok () ∧ d = { e with kept := e.kept.filter fun n => !fits method discard n })) := by
  unfold forget at h
  rcases hd : drain c.inbox c with ⟨x | u, e⟩
  · rw [hd] at h
    cases h
    rw [drain_eq_search] at hd
    exact ⟨_, search_halts _ hd, Or.inl ⟨x, rfl, rfl⟩⟩
  · rw [hd] at h
    cases h
    rw [drain_eq_search] at hd
    exact ⟨e, search_halts _ hd, Or.inr ⟨rfl, rfl⟩⟩

theorem inbox_of_drained {α : Type} {keeping : Bool} {pick : Message → Option α}
    {atEnd : Bool → Except ServiceError α} {c d : Client} {ms : List Json} {a : α}
    (hnone : ∀ msg, pick msg = none) (h : Halts keeping pick atEnd c ms (.ok a) d) :
    d.inbox = [] := by
  generalize hr : (Except.ok a : Except ServiceError α) = r at h
  cases h with
  | exhausted _ => rfl
  | picked _ _ ha => exact absurd ((hnone _).symm.trans ha) (by simp)
  | undecodable | unanswered => exact absurd hr (by simp)

end CompletionCheck.Lsp.Client
