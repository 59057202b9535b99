import CompletionCheck.Proofs.Lsp.Keeping

/-!
# Two waits, one after the other

A request keeps the notifications that it goes past, and so does a forgetting; a wait does not.
What it meets on the way to its own notification is lost, even when it is just what the next wait
is for (`awaited_notification_lost`), and the two waits the other way round would both have found
what they look for.

What the second wait does find is said by `second_wait_looks_behind`: it looks at what was kept
before the first one, then at what stands behind the message that ended the first one, and then at
what has arrived since.  Only when the first wait is served by what was kept does it leave
everything else in its place (`leftBehind`).
-/

namespace CompletionCheck.Lsp.Client

open Service (Outcome)

/-- A wait in which messages arrive, with room for every answer. -/
def waiting (method : String) (accept : Json → Bool) (messages : List Json) : Move where
  operation := .wait method accept
  arrival := { messages }

/-- The notifications that a wait for one with `p` leaves among those in its queue. -/
def leftBehind (kept queued : List Notification) (p : Notification → Bool) : List Notification :=
  if kept.any p then queued else (queued.dropWhile fun n => !p n).drop 1

theorem find?_eraseP {p q : Notification → Bool} (hapart : ∀ n, ¬ (p n = true ∧ q n = true))
    (l : List Notification) : (l.eraseP p).find? q = l.find? q := by
  induction l with
  | nil => rfl
  | cons n rest ih =>
      cases hp : p n with
      | true =>
          have hq : q n = false := by
            cases hq : q n with
            | false => rfl
            | true => exact absurd ⟨hp, hq⟩ (hapart n)
          rw [List.eraseP_cons_of_pos hp, List.find?_cons, hq]
      | false =>
          rw [List.eraseP_cons_of_neg (by simp [hp]), List.find?_cons, List.find?_cons, ih]

theorem not_fits_both {method₁ method₂ : String} (hne : method₁ ≠ method₂)
    (accept₁ accept₂ : Json → Bool) (n : Notification) :
    ¬ (fits method₁ accept₁ n = true ∧ fits method₂ accept₂ n = true) := by
  rintro ⟨hfirst, hsecond⟩
  simp only [fits, Bool.and_eq_true, beq_iff_eq] at hfirst hsecond
  exact hne (hfirst.1.symm.trans hsecond.1)

section Wait

variable {c : Client} {method : String} {accept : Json → Bool} {messages : List Json}

/-- Where everything makes sense and can be answered, the loop of a wait takes what stands in front
of the first notification that fits, and that one. -/
theorem left_of_halts {d : Client} {ms : List Json} {k : Nat} {r : Except ServiceError Yield}
    (h : Halts false ((Operation.wait method accept).pick k) (Operation.wait method accept).atEnd
      c ms r d) (hopen : c.writesLeft = none) (hended : c.ended = false)
    (hsense : ∀ m ∈ ms, ∃ msg, Message.ofJson? m = some msg) :
    (∃ found, r = .ok (.notification found)) ∧ d.ended = false ∧ d.inbox <:+ ms ∧
      notificationsIn d.inbox
        = ((notificationsIn ms).dropWhile fun n => !fits method accept n).drop 1 := by
  have skip {passed : List Json} {e : Client}
      (hp : Passes false ((Operation.wait method accept).pick k) c passed e) :
      ∀ n ∈ notificationsIn passed, (!fits method accept n) = true := by
    intro n hn
    rw [not_fits_of_sense hp.not_picked n hn]
    rfl
  cases h with
  | @exhausted _ e hp =>
      have hstill : e.ended = false := hp.answered.ended.trans hended
      refine ⟨⟨none, ?_⟩, hstill, List.nil_suffix, ?_⟩
      · rw [hstill]
        rfl
      · rw [List.dropWhile_eq_nil_iff.mpr (skip hp)]
        rfl
  | @picked passed rest m msg y e hp hm hy =>
      obtain ⟨params, hpick, rfl⟩ := Option.map_eq_some_iff.mp hy
      obtain ⟨n, rfl, hfits, -⟩ := pickNotification_eq_some hpick
      refine ⟨⟨params, rfl⟩, hp.answered.ended.trans hended, ?_, ?_⟩
      · exact (List.suffix_cons m rest).trans (List.suffix_append passed _)
      · rw [notificationsIn_append, List.dropWhile_append_of_pos (skip hp), notificationsIn_cons hm]
        simp [notificationOf?, hfits, leave]
  | @undecodable passed rest m e hp hm =>
      obtain ⟨msg, hsome⟩ := hsense m (by simp)
      exact absurd (hm.symm.trans hsome) (by simp)
  | unanswered hp _ _ hclosed =>
      exact absurd ((hp.answered.unlimited hopen).symm.trans hclosed) (by simp)

theorem perform_waiting (method : String) (accept : Json → Bool) (hended : c.ended = false)
    (hsense : ∀ m ∈ c.inbox ++ messages, ∃ msg, Message.ofJson? m = some msg) :
    ∃ d, c.perform (waiting method accept messages)
        = (.ok (.notification (((c.kept ++ notificationsIn (c.inbox ++ messages)).find?
            (fits method accept)).bind Notification.params)), d) ∧
      d.kept = c.kept.eraseP (fits method accept) ∧ d.ended = false ∧
      d.inbox <:+ c.inbox ++ messages ∧
      notificationsIn d.inbox
        = leftBehind c.kept (notificationsIn (c.inbox ++ messages)) (fits method accept) := by
  cases hfind : c.kept.find? (fits method accept) with
  | some n =>
      have hany : c.kept.any (fits method accept) = true :=
        List.any_eq_true.mpr ⟨n, List.mem_of_find?_eq_some hfind, List.find?_some hfind⟩
      refine ⟨{ c.ready (waiting method accept messages) with
        kept := c.kept.eraseP (fits method accept) }, ?_, rfl, ?_, List.suffix_rfl, ?_⟩
      · rw [List.find?_append, hfind]
        exact perform_wait_ready _ _ hfind
      · show (c.ended || false) = false
        rw [hended]
        rfl
      · rw [leftBehind, if_pos hany]
        rfl
  | none =>
      have hany : ¬ c.kept.any (fits method accept) = true := by
        rw [List.any_eq_true]
        rintro ⟨n, hn, hfits⟩
        exact List.find?_eq_none.mp hfind n hn hfits
      have hh := halts_perform_wait { messages } none hfind
      have hstill : (c.begun (waiting method accept messages)).ended = false := by
        rw [begun_ended, hended]
        rfl
      obtain ⟨⟨found, hfound⟩, hended', hsuffix, hleft⟩ :=
        left_of_halts hh (begun_writesLeft rfl) hstill hsense
      refine ⟨_, Prod.ext ?_ rfl, perform_wait_kept _ _, hended', hsuffix, ?_⟩
      · rw [List.find?_append, hfind, Option.none_or, ← perform_wait_sound hfind hfound]
        exact hfound
      · rw [leftBehind, if_neg hany]
        exact hleft

end Wait

/-- **A second wait looks only behind the first.**  Two waits for different things follow each other
on a connection that stays open, everything that arrives makes sense, and every answer can be
written.  The first gives the first notification that fits among those kept and those queued.  The
second gives the first one that fits it among those kept, those that the first has left, and those
that have arrived since; and none when there is none. -/
theorem second_wait_looks_behind {c : Client} {method₁ method₂ : String}
    {accept₁ accept₂ : Json → Bool} {arrived₁ arrived₂ : List Json} (hended : c.ended = false)
    (hsense : ∀ m ∈ c.inbox ++ arrived₁ ++ arrived₂, ∃ msg, Message.ofJson? m = some msg)
    (hapart : ∀ n, ¬ (fits method₁ accept₁ n = true ∧ fits method₂ accept₂ n = true)) :
    ∃ first second, turns c [waiting method₁ accept₁ arrived₁, waiting method₂ accept₂ arrived₂]
        = [first, second] ∧
      first.result = .ok (.notification (((c.kept ++ notificationsIn (c.inbox ++ arrived₁)).find?
        (fits method₁ accept₁)).bind Notification.params)) ∧
      second.result = .ok (.notification (((c.kept
        ++ leftBehind c.kept (notificationsIn (c.inbox ++ arrived₁)) (fits method₁ accept₁)
        ++ notificationsIn arrived₂).find? (fits method₂ accept₂)).bind Notification.params)) := by
  have hearlier : ∀ m ∈ c.inbox ++ arrived₁, ∃ msg, Message.ofJson? m = some msg :=
    fun m hm => hsense m (List.mem_append_left _ hm)
  obtain ⟨d, hfirst, hkept, hopen, hsuffix, hleft⟩ :=
    perform_waiting method₁ accept₁ hended hearlier
  have hlater : ∀ m ∈ d.inbox ++ arrived₂, ∃ msg, Message.ofJson? m = some msg := by
    intro m hm
    rcases List.mem_append.mp hm with hm | hm
    · exact hsense m (List.mem_append_left _ (hsuffix.subset hm))
    · exact hsense m (List.mem_append_right _ hm)
  obtain ⟨e, hsecond, -⟩ := perform_waiting method₂ accept₂ hopen hlater
  have hfound : (d.kept ++ notificationsIn (d.inbox ++ arrived₂)).find? (fits method₂ accept₂)
      = (c.kept ++ leftBehind c.kept (notificationsIn (c.inbox ++ arrived₁)) (fits method₁ accept₁)
        ++ notificationsIn arrived₂).find? (fits method₂ accept₂) := by
    rw [notificationsIn_append, hleft, hkept, List.append_assoc, List.find?_append,
      find?_eraseP hapart, ← List.find?_append]
  refine ⟨_, _, rfl, by rw [hfirst], ?_⟩
  rw [hfirst, ← hfound]
  exact congrArg Prod.fst hsecond

/-- A notification behind the first wait serves the second. -/
theorem second_wait_looks_behind_later : ∃ first second,
    turns {} [waiting "b" (fun _ => true) [told "a" 1, told "b" 2, told "a" 3],
      waiting "a" (fun _ => true) [told "a" 4]] = [first, second] ∧
    first.result = .ok (.notification (some (.int 2))) ∧
    second.result = .ok (.notification (some (.int 3))) := by
  refine second_wait_looks_behind rfl ?_ (not_fits_both (by decide) _ _)
  intro m hm
  simp only [List.nil_append, List.cons_append, List.mem_cons, List.not_mem_nil, or_false] at hm
  rcases hm with rfl | rfl | rfl | rfl
  all_goals exact ⟨_, rfl⟩

/-- **A notification that the next wait is for is lost.**  Two waits for different things, and one
notification of each kind, both of which make sense and are received before the first wait ends.
The first wait finds its own behind the other one, and the second wait runs out of time; the other
way round both find what they wait for. -/
theorem awaited_notification_lost :
    (∀ n, ¬ (fits "b" (fun _ => true) n = true ∧ fits "a" (fun _ => true) n = true)) ∧
    notificationsIn [told "a" 1, told "b" 2] = [⟨"a", some (.int 1)⟩, ⟨"b", some (.int 2)⟩] ∧
    (∃ first second, turns {} [waiting "b" (fun _ => true) [told "a" 1, told "b" 2],
        waiting "a" (fun _ => true) []] = [first, second] ∧
      first.taken = [told "a" 1, told "b" 2] ∧
      first.result = .ok (.notification (some (.int 2))) ∧
      second.result = .ok (.notification none)) ∧
    ∃ first second, turns {} [waiting "a" (fun _ => true) [told "a" 1, told "b" 2],
        waiting "b" (fun _ => true) []] = [first, second] ∧
      first.result = .ok (.notification (some (.int 1))) ∧
      second.result = .ok (.notification (some (.int 2))) := by
  refine ⟨not_fits_both (by decide) _ _, rfl, ?_, ?_⟩
  · exact ⟨_, _, rfl, rfl, rfl, rfl⟩
  · exact ⟨_, _, rfl, rfl, rfl⟩

end CompletionCheck.Lsp.Client
