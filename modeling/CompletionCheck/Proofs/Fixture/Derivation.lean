import CompletionCheck.Fixture.Grammar
import CompletionCheck.Proofs.Fixture.Tokens

/-!
# What the grammar makes of a payload

The grammar gives every payload one tree and leaves nothing of it over, and a walk through that
tree gathers what the tokens ask.  So the reader, which knows no grammar, reads what the grammar
derives.

The derivation follows the tokens.  One that holds a `!` is forbidden by the first alternative,
because its lead ends at its first `!`.  In any other one the lead runs up to a `;` or to the end,
where no `!` stands, so that the second alternative has it.  A repetition ends where its body does
not fit, which is why every derivation here also says what follows the characters it takes.  That
there is no other derivation is a fact about the whole grammar and not about payloads
(`Derives.unique`).
-/

namespace CompletionCheck.Fixture

open Text (byteLength)

/-! ## One derivation at most -/

/-- A pattern makes one thing of a place. -/
theorem Derives.unique {p : Pattern} {n : Nat} {cs : List Char} {m m' : Match}
    (h : Derives p n cs m) (h' : Derives p n cs m') : m = m' := by
  induction h generalizing m' with
  | char =>
      cases h' with
      | char => rfl
      | notChar hne => exact absurd rfl hne
  | notChar hne =>
      cases h' with
      | char => exact absurd rfl hne
      | notChar => rfl
  | any => cases h'; rfl
  | notAny => cases h'; rfl
  | textStart =>
      cases h' with
      | textStart => rfl
      | notTextStart hne => exact absurd rfl hne
  | notTextStart hne =>
      cases h' with
      | textStart => exact absurd rfl hne
      | notTextStart => rfl
  | textEnd => cases h'; rfl
  | notTextEnd => cases h'; rfl
  | «unless» _ ih =>
      cases h' with
      | «unless» => rfl
      | notUnless h' => exact absurd (ih h') (by simp)
  | notUnless _ ih =>
      cases h' with
      | «unless» h' => exact absurd (ih h') (by simp)
      | notUnless => rfl
  | seq _ _ ih₁ ih₂ =>
      cases h' with
      | seq h₁ h₂ =>
          cases ih₁ h₁
          cases ih₂ h₂
          rfl
      | notFirst h₁ => exact absurd (ih₁ h₁) (by simp)
      | notSecond h₁ h₂ =>
          cases ih₁ h₁
          exact absurd (ih₂ h₂) (by simp)
  | notFirst _ ih =>
      cases h' with
      | seq h₁ => exact absurd (ih h₁) (by simp)
      | notFirst => rfl
      | notSecond => rfl
  | notSecond _ _ ih₁ ih₂ =>
      cases h' with
      | seq h₁ h₂ =>
          cases ih₁ h₁
          exact absurd (ih₂ h₂) (by simp)
      | notFirst => rfl
      | notSecond => rfl
  | first _ ih =>
      cases h' with
      | first h₁ => exact ih h₁
      | second h₁ => exact absurd (ih h₁) (by simp)
  | second _ _ ih₁ ih₂ =>
      cases h' with
      | first h₁ => exact absurd (ih₁ h₁) (by simp)
      | second _ h₂ => exact ih₂ h₂
  | stop _ ih =>
      cases h' with
      | stop => rfl
      | more h₁ => exact absurd (ih h₁) (by simp)
  | more _ _ ih₁ ih₂ =>
      cases h' with
      | stop h₁ => exact absurd (ih₁ h₁) (by simp)
      | more h₁ h₂ =>
          cases ih₁ h₁
          cases ih₂ h₂
          rfl
  | part _ ih =>
      cases h' with
      | part h₁ =>
          cases ih h₁
          rfl
      | notPart h₁ => exact absurd (ih h₁) (by simp)
  | notPart _ ih =>
      cases h' with
      | part h₁ => exact absurd (ih h₁) (by simp)
      | notPart => rfl

/-! ## The derivation of a token -/

/-- What may follow a token. -/
def Ends (rest : List Char) : Prop :=
  rest = [] ∨ ∃ later, rest = ';' :: later

section Runs

variable {run rest : List Char} {p : Pattern}

/-- A repetition takes the characters that its look ahead lets through, up to where it stops. -/
theorem derives_run (hrun : ∀ c ∈ run, ∀ n later, Derives p n (c :: later) none)
    (hstop : ∀ n, Derives (.seq (.unless p) .any) n rest none) : ∀ n,
    Derives (.many (.seq (.unless p) .any)) n (run ++ rest)
      (some ([], n + byteLength run, rest)) := by
  induction run with
  | nil => intro n; exact .stop (hstop n)
  | cons c run ih =>
      intro n
      have hc := hrun c List.mem_cons_self n (run ++ rest)
      have hlater := ih (fun d hd => hrun d (List.mem_cons_of_mem c hd)) (n + c.utf8Size)
      rw [Text.byteLength_cons, ← Nat.add_assoc]
      exact .more (.seq (.unless hc) (.any c n (run ++ rest))) hlater

theorem derives_stop_end {n : Nat} (h : Derives p n [] none) :
    Derives (.seq (.unless p) .any) n [] none :=
  .notSecond (.unless h) (.notAny n)

theorem derives_stop {n : Nat} {m : List Node × Nat × List Char} (h : Derives p n rest (some m)) :
    Derives (.seq (.unless p) .any) n rest none :=
  .notFirst (.notUnless h)

theorem notChar_of_mem {c d : Char} (hd : d ∉ run) (hc : c ∈ run) (n : Nat) (later : List Char) :
    Derives (.char d) n (c :: later) none := by
  refine .notChar fun heq => ?_
  obtain rfl : c = d := Option.some.inj heq
  exact hd hc

theorem derives_symbol {text : List Char} (htext : ';' ∉ text) (hrest : Ends rest) (n : Nat) :
    Derives (.part .symbol) n (text ++ rest)
      (some ([.mk .symbol n (n + byteLength text) []], n + byteLength text, rest)) := by
  refine .part (derives_run (fun c hc => notChar_of_mem htext hc) (fun m => ?_) n)
  obtain rfl | ⟨later, rfl⟩ := hrest
  · exact derives_stop_end (.notChar (by simp))
  · exact derives_stop (.char ';' m later)

theorem derives_lead {before : List Char} (hbreak : ';' ∉ before) (hmark : '!' ∉ before)
    (hrest : Ends rest ∨ ∃ later, rest = '!' :: later) (n : Nat) :
    Derives (.part .lead) n (before ++ rest)
      (some ([.mk .lead n (n + byteLength before) []], n + byteLength before, rest)) := by
  refine .part (derives_run (fun c hc m later => ?_) (fun m => ?_) n)
  · exact .second (notChar_of_mem hbreak hc m later) (notChar_of_mem hmark hc m later)
  · obtain (rfl | ⟨later, rfl⟩) | ⟨later, rfl⟩ := hrest
    · exact derives_stop_end (.second (.notChar (by simp)) (.notChar (by simp)))
    · exact derives_stop (.first (.char ';' m later))
    · exact derives_stop (.second (.notChar (by simp)) (.char '!' m later))

end Runs

theorem byteLength_forbidden (before after : List Char) :
    byteLength (Token.forbidden before after).text
      = byteLength before + 1 + byteLength after := by
  rw [Token.text, Text.byteLength_append, Text.byteLength_cons, show '!'.utf8Size = 1 from rfl,
    Nat.add_assoc]

theorem derives_token {t : Token} {rest : List Char} (ht : t.Proper) (hrest : Ends rest)
    (n : Nat) : Derives (.part .token) n (t.text ++ rest)
      (some ([t.node n], n + byteLength t.text, rest)) := by
  cases t with
  | symbol text =>
      -- the lead runs up to the end of the token, where the first alternative misses its mark
      have hno : rest.head? ≠ some '!' := by
        obtain rfl | ⟨later, rfl⟩ := hrest <;> simp
      have hlead := derives_lead ht.whole ht.divided (Or.inl hrest) n
      exact .part (.second (.notPart (.notSecond hlead (.notFirst (.notChar hno))))
        (derives_symbol ht.whole hrest n))
  | forbidden before after =>
      obtain ⟨hbefore, hafter⟩ : ';' ∉ before ∧ ';' ∉ after := by
        have := ht.whole
        simp only [Token.text, List.mem_append, List.mem_cons, not_or] at this
        exact ⟨this.1, this.2.2⟩
      have htext : (Token.forbidden before after).text ++ rest
          = before ++ '!' :: (after ++ rest) := by
        simp [Token.text]
      have hlead := derives_lead hbefore ht.divided (Or.inr ⟨after ++ rest, rfl⟩) n
      have hmark := Derives.char '!' (n + byteLength before) (after ++ rest)
      have hsymbol := derives_symbol hafter hrest (n + byteLength before + 1)
      have hstop : n + byteLength before + 1 + byteLength after
          = n + byteLength (Token.forbidden before after).text := by
        rw [byteLength_forbidden]
        omega
      rw [hstop] at hsymbol
      rw [htext]
      exact .part (.first (.part (.seq hlead (.seq hmark hsymbol))))

/-! ## The derivation of a payload -/

theorem ends_following (ts : List Token) : Ends (following ts) := by
  cases ts with
  | nil => exact Or.inl rfl
  | cons t ts => exact Or.inr ⟨_, rfl⟩

theorem derives_following (ts : List Token) : (∀ t ∈ ts, t.Proper) → ∀ n,
    Derives (.many (.seq (.char ';') (.part .token))) n (following ts)
      (some (tokenNodes (n + 1) ts, n + byteLength (following ts), [])) := by
  induction ts with
  | nil => intro _ n; exact .stop (.notFirst (.notChar (by simp)))
  | cons t ts ih =>
      intro hts n
      obtain ⟨ht, hts⟩ := List.forall_mem_cons.mp hts
      have hbreak := Derives.char ';' n (t.text ++ following ts)
      have hfirst := derives_token ht (ends_following ts) (n + 1)
      have hlater := ih hts (n + 1 + byteLength t.text)
      have hstop : n + 1 + byteLength t.text + byteLength (following ts)
          = n + byteLength (following (t :: ts)) := by
        rw [following_cons, Text.byteLength_cons, Text.byteLength_append,
          show ';'.utf8Size = 1 from rfl]
        omega
      rw [hstop] at hlater
      exact .more (.seq hbreak hfirst) hlater

/-- The grammar gives a payload its tree and takes all of it. -/
theorem derives_tree (payload : List Char) :
    Derives (.part .payload) 0 payload (some ([tree payload], byteLength payload, [])) := by
  obtain ⟨t, ts, htokens, hpayload⟩ := exists_tokens_eq_cons payload
  have hproper : ∀ u ∈ t :: ts, u.Proper := fun u hu => proper_of_mem_tokens (htokens ▸ hu)
  obtain ⟨ht, hts⟩ := List.forall_mem_cons.mp hproper
  have hfirst := derives_token ht (ends_following ts) 0
  have hlater := derives_following ts hts (0 + byteLength t.text)
  have hsize : 0 + byteLength t.text + byteLength (following ts) = byteLength payload := by
    rw [hpayload, Text.byteLength_append, Nat.zero_add]
  rw [hsize] at hlater
  have hend : Derives (.part .endOfInput) (byteLength payload) []
      (some ([.mk .endOfInput (byteLength payload) (byteLength payload) []],
        byteLength payload, [])) :=
    .part (.textEnd _)
  have hwhole := Derives.seq (.textStart _) (.seq hfirst (.seq hlater hend))
  rw [← hpayload] at hwhole
  rw [tree, htokens]
  exact .part hwhole

/-! ## The walk through a tree -/

theorem spanText?_append (x y z : List Char) :
    spanText? (x ++ (y ++ z)) (byteLength x) (byteLength x + byteLength y) = some y := by
  have htake : ∀ u, (Text.encode (y ++ u)).take (byteLength y) = Text.encode y := fun u => by
    rw [Text.encode_append, ← Text.length_encode, List.take_left]
  have hdrop : (Text.encode (x ++ (y ++ z))).drop (byteLength x) = Text.encode (y ++ z) := by
    rw [Text.encode_append x, ← Text.length_encode, List.drop_left]
  rw [spanText?, hdrop, Nat.add_sub_cancel_left, htake, Text.decode?_encode]

theorem collect_node (x z : List Char) (t : Token) (e : Expectations) :
    collect (x ++ (t.text ++ z)) e (t.node (byteLength x)) = some (e.add t) := by
  cases t with
  | symbol text =>
      have hspan := spanText?_append x text z
      simp only [Token.node, Token.text, collect, collectAll, hspan, Expectations.add]
      rfl
  | forbidden before after =>
      have hlead := spanText?_append x before ('!' :: (after ++ z))
      have hsymbol := spanText?_append (x ++ (before ++ ['!'])) after z
      have hmark : byteLength (x ++ (before ++ ['!'])) = byteLength x + byteLength before + 1 := by
        simp [Nat.add_assoc, show '!'.utf8Size = 1 from rfl]
      have hstop : byteLength x + byteLength before + 1 + byteLength after
          = byteLength x + byteLength (Token.forbidden before after).text := by
        rw [byteLength_forbidden]
        omega
      have htext : x ++ ((Token.forbidden before after).text ++ z)
          = x ++ (before ++ '!' :: (after ++ z)) := by
        simp [Token.text]
      have htext' : x ++ (before ++ ['!']) ++ (after ++ z)
          = x ++ (before ++ '!' :: (after ++ z)) := by
        simp
      rw [hmark, hstop, htext'] at hsymbol
      rw [htext]
      simp only [Token.node, collect, collectAll, nodesText?, hlead, hsymbol, Expectations.add]
      simp

theorem collectAll_tokenNodes (last : Node) (ts : List Token) : ∀ (x : List Char)
    (e : Expectations),
    collectAll (x ++ following ts) e (tokenNodes (byteLength x + 1) ts ++ [last])
      = collectAll (x ++ following ts) (ts.foldl Expectations.add e) [last] := by
  induction ts with
  | nil => intro x e; rfl
  | cons t ts ih =>
      intro x e
      have htext : x ++ following (t :: ts) = x ++ [';'] ++ (t.text ++ following ts) := by
        simp
      have hstart : byteLength (x ++ [';']) = byteLength x + 1 := by
        simp [show ';'.utf8Size = 1 from rfl]
      have hlater := ih (x ++ [';'] ++ t.text) (e.add t)
      rw [Text.byteLength_append, hstart, List.append_assoc _ t.text] at hlater
      have hfirst := collect_node (x ++ [';']) (following ts) t e
      rw [hstart] at hfirst
      rw [htext, tokenNodes, List.cons_append, collectAll, hfirst]
      exact hlater

/-- The walk through the tree of a payload gathers what its tokens ask. -/
theorem ofTree?_tree (payload : List Char) :
    Expectations.ofTree? payload (tree payload) = some (Expectations.parse payload) := by
  obtain ⟨t, ts, htokens, hpayload⟩ := exists_tokens_eq_cons payload
  have hfirst := collect_node [] (following ts) t {}
  have hlater := collectAll_tokenNodes
    (.mk .endOfInput (byteLength payload) (byteLength payload) []) ts t.text
    (Expectations.add {} t)
  rw [List.nil_append, ← hpayload, Text.byteLength_nil] at hfirst
  rw [← hpayload] at hlater
  have hcollect : collect payload {} (tree payload)
      = some (Expectations.ofTokens (tokens payload)) := by
    rw [tree, htokens, collect, tokenNodes, List.cons_append, collectAll, hfirst, Nat.zero_add]
    exact hlater
  rw [Expectations.ofTree?, hcollect]
  rfl

end CompletionCheck.Fixture
