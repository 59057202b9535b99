import CompletionCheck.Proofs.Fixture.Derivation

/-!
# What a payload asks

What a payload asks, said without a grammar: it is cut at every `;`, the blanks around each token
are dropped, and a token with a `!` in it forbids what is left when its first `!` is taken out and
the rest is trimmed again.  Any other token is expected, and empty symbols count for nothing.  A
payload that expects what it forbids is refused with the first such symbol, and every other one is
answered with the expected symbols in their order and the set of the forbidden ones (`Answers`).

The grammar, the walk through its tree and the reader of tokens all come to this.  The one place
where they differ from it in more than words is the order of trimming: here a token is trimmed
before its `!` is taken out, there only afterwards.  Because a `!` is not blank the two agree
(`Text.trim_erase_trim`).
-/

namespace CompletionCheck.Fixture

/-! ## Tokens as texts -/

/-- The tokens of a payload without the blanks around them. -/
def trimmedTokens (payload : List Char) : List (List Char) :=
  (payload.splitOn ';').map Text.trim

/-- The symbol that a text names; an empty text names none. -/
def named? (text : List Char) : Option String :=
  if text.isEmpty then none else some (String.ofList text)

/-- The symbol that a trimmed token expects, if it expects one. -/
def expectedBy? (token : List Char) : Option String :=
  if '!' ∈ token then none else named? token

/-- The symbol that a trimmed token forbids, if it forbids one. -/
def unwantedBy? (token : List Char) : Option String :=
  if '!' ∈ token then named? (Text.trim (token.erase '!')) else none

def expectedIn (payload : List Char) : List String :=
  (trimmedTokens payload).filterMap expectedBy?

/-- The forbidden symbols of a payload, in the order in which they are written. -/
def unwantedIn (payload : List Char) : List String :=
  (trimmedTokens payload).filterMap unwantedBy?

/-- What a payload asks, in conflict with itself or not. -/
def asked (payload : List Char) : Expectations :=
  ⟨expectedIn payload, .ofList (unwantedIn payload)⟩

/-- The answer to a payload: the first symbol that it expects and also forbids, or, when there is
none, all that it asks. -/
inductive Answers (payload : List Char) : Except Conflict Expectations → Prop
  | conflict {before after : List String} {s : String} :
      expectedIn payload = before ++ s :: after → s ∈ unwantedIn payload →
      (∀ t ∈ before, t ∉ unwantedIn payload) → Answers payload (.error ⟨s⟩)
  | agreed : (∀ s ∈ expectedIn payload, s ∉ unwantedIn payload) →
      Answers payload (.ok (asked payload))

/-! ## What the tokens ask -/

theorem mark_not_blank : Text.isBlank '!' = false := by decide

namespace Expectations

variable {e : Expectations} {text : List Char}

theorem expect_eq : e.expect text = { e with expected := e.expected ++ (named? text).toList } := by
  rw [expect, named?]
  split
  · simp
  · rfl

theorem forbid_eq : e.forbid text
    = { e with unwanted := (named? text).toList.foldl (fun set s => set.insert s) e.unwanted } := by
  rw [forbid, named?]
  split <;> rfl

theorem add_eq {t : Token} (ht : t.Proper) : e.add t =
    ⟨e.expected ++ (expectedBy? (Text.trim t.text)).toList,
      (unwantedBy? (Text.trim t.text)).toList.foldl (fun set s => set.insert s) e.unwanted⟩ := by
  cases t with
  | symbol text =>
      have hmark : '!' ∉ Text.trim text := fun h =>
        ht.divided ((Text.mem_trim mark_not_blank).mp h)
      rw [add, expect_eq, Token.text, expectedBy?, unwantedBy?, if_neg hmark, if_neg hmark]
      rfl
  | forbidden before after =>
      have hmark : '!' ∈ before ++ '!' :: after := by simp
      have hmark' := (Text.mem_trim mark_not_blank).mpr hmark
      have hbefore : '!' ∉ before := ht.divided
      have herase : (before ++ '!' :: after).erase '!' = before ++ after := by
        rw [List.erase_append_right _ hbefore, List.erase_cons_head]
      rw [add, forbid_eq, Token.text, expectedBy?, unwantedBy?, if_pos hmark', if_pos hmark',
        Text.trim_erase_trim mark_not_blank hmark, herase]
      simp

theorem foldl_add (ts : List Token) : (∀ t ∈ ts, t.Proper) → ∀ e : Expectations,
    ts.foldl add e =
      ⟨e.expected ++ (ts.map (Text.trim ·.text)).filterMap expectedBy?,
        ((ts.map (Text.trim ·.text)).filterMap unwantedBy?).foldl (fun set s => set.insert s)
          e.unwanted⟩ := by
  induction ts with
  | nil => intro _ e; simp
  | cons t ts ih =>
      intro hts e
      obtain ⟨ht, hts⟩ := List.forall_mem_cons.mp hts
      rw [List.foldl_cons, ih hts, add_eq ht]
      cases hexpected : expectedBy? (Text.trim t.text) <;>
        cases hunwanted : unwantedBy? (Text.trim t.text) <;>
        simp [hexpected, hunwanted]

/-- The tokens of a payload ask what the payload asks. -/
theorem ofTokens_tokens (payload : List Char) : ofTokens (tokens payload) = asked payload := by
  have htexts : (tokens payload).map (Text.trim ·.text) = trimmedTokens payload := by
    rw [trimmedTokens, ← map_text_tokens, List.map_map]
    rfl
  rw [ofTokens, foldl_add _ (fun t ht => proper_of_mem_tokens ht), htexts]
  rfl

end Expectations

/-! ## The answer -/

section Answer

variable {payload other : List Char}

theorem mem_asked {s : String} : s ∈ (asked payload).unwanted ↔ s ∈ unwantedIn payload :=
  SymbolSet.mem_ofList

theorem conflict?_asked_eq_some {s : String} : (asked payload).conflict? = some ⟨s⟩ ↔
    ∃ before after, expectedIn payload = before ++ s :: after ∧ s ∈ unwantedIn payload ∧
      ∀ t ∈ before, t ∉ unwantedIn payload := by
  rw [Expectations.conflict?, Option.map_eq_some_iff]
  constructor
  · rintro ⟨_, hfind, hsymbol⟩
    cases hsymbol
    obtain ⟨hs, before, after, hsplit, hbefore⟩ := List.find?_eq_some_iff_append.mp hfind
    refine ⟨before, after, hsplit, mem_asked.mp (of_decide_eq_true hs), fun t ht hunwanted => ?_⟩
    simpa [mem_asked.mpr hunwanted] using hbefore t ht
  · rintro ⟨before, after, hsplit, hs, hbefore⟩
    refine ⟨s, List.find?_eq_some_iff_append.mpr ⟨decide_eq_true (mem_asked.mpr hs), before, after,
      hsplit, fun t ht => ?_⟩, rfl⟩
    simpa [mem_asked] using hbefore t ht

theorem conflict?_asked_eq_none :
    (asked payload).conflict? = none ↔ ∀ s ∈ expectedIn payload, s ∉ unwantedIn payload := by
  rw [Expectations.conflict?, Option.map_eq_none_iff, List.find?_eq_none]
  constructor
  · intro h s hs hunwanted
    exact h s hs (decide_eq_true (mem_asked.mpr hunwanted))
  · intro h s hs hunwanted
    exact h s hs (mem_asked.mp (of_decide_eq_true hunwanted))

theorem parse_eq_iff_answers {answer : Except Conflict Expectations} :
    Expectations.parse payload = answer ↔ Answers payload answer := by
  rw [Expectations.parse, Expectations.ofTokens_tokens, Expectations.checked]
  constructor
  · rintro rfl
    cases hconflict : (asked payload).conflict? with
    | none => exact .agreed (conflict?_asked_eq_none.mp hconflict)
    | some c =>
        obtain ⟨before, after, hsplit, hs, hbefore⟩ := conflict?_asked_eq_some.mp hconflict
        exact .conflict hsplit hs hbefore
  · intro h
    cases h with
    | conflict hsplit hs hbefore =>
        rw [conflict?_asked_eq_some.mpr ⟨_, _, hsplit, hs, hbefore⟩]
    | agreed hagreed => rw [conflict?_asked_eq_none.mpr hagreed]

/-- A payload is refused exactly if it expects what it forbids. -/
theorem parse_conflict_iff : (∃ c, Expectations.parse payload = .error c) ↔
    ∃ s ∈ expectedIn payload, s ∈ unwantedIn payload := by
  constructor
  · rintro ⟨c, hc⟩
    cases parse_eq_iff_answers.mp hc with
    | conflict hsplit hs => exact ⟨_, by simp [hsplit], hs⟩
  · rintro ⟨s, hexpected, hunwanted⟩
    cases hparse : Expectations.parse payload with
    | error c => exact ⟨c, rfl⟩
    | ok e =>
        cases parse_eq_iff_answers.mp hparse with
        | agreed hagreed => exact absurd hunwanted (hagreed s hexpected)

theorem trimmedTokens_perm (h : (other.splitOn ';').Perm (payload.splitOn ';')) :
    (trimmedTokens other).Perm (trimmedTokens payload) :=
  h.map Text.trim

/-- **A payload is read as it is split.**  The grammar derives one tree of a payload, which takes
all of it, so that no payload is malformed; a walk through that tree gives what the reader of tokens
gives; and this is the answer to the payload as it is split.  When the tokens of a payload are
written in another order, the same symbols are forbidden, the same symbols are expected the same
number of times, and there is a conflict where there was one. -/
theorem parse_splits (payload : List Char) :
    (∀ outcome, Derives (.part .payload) 0 payload outcome ↔
      outcome = some ([tree payload], Text.byteLength payload, [])) ∧
    Expectations.ofTree? payload (tree payload) = some (Expectations.parse payload) ∧
    (∀ answer, Expectations.parse payload = answer ↔ Answers payload answer) ∧
    ∀ other, (other.splitOn ';').Perm (payload.splitOn ';') →
      (asked other).unwanted = (asked payload).unwanted ∧
      (asked other).expected.Perm (asked payload).expected ∧
      ((∃ c, Expectations.parse other = .error c) ↔
        ∃ c, Expectations.parse payload = .error c) := by
  refine ⟨fun outcome => ?_, ofTree?_tree payload, fun _ => parse_eq_iff_answers,
    fun other hperm => ?_⟩
  · constructor
    · intro h
      exact h.unique (derives_tree payload)
    · rintro rfl
      exact derives_tree payload
  · have hexpected : (expectedIn other).Perm (expectedIn payload) :=
      (trimmedTokens_perm hperm).filterMap expectedBy?
    have hunwanted : (unwantedIn other).Perm (unwantedIn payload) :=
      (trimmedTokens_perm hperm).filterMap unwantedBy?
    refine ⟨SymbolSet.eq_of_mem_iff fun s => ?_, hexpected, ?_⟩
    · rw [mem_asked, mem_asked, hunwanted.mem_iff]
    · rw [parse_conflict_iff, parse_conflict_iff]
      simp only [hexpected.mem_iff, hunwanted.mem_iff]

end Answer

/-- Only the first mark of a token is one, and a token of blanks and marks names nothing. -/
example : Expectations.parse "a; b!!c; a;; !".toList = .ok ⟨["a", "a"], .ofList ["b!c"]⟩ := by
  rfl

end CompletionCheck.Fixture
