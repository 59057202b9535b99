import CompletionCheck.Fixture.Expectations
import Mathlib.Data.List.TakeDrop

/-!
# The tokens of a payload

The reader of tokens looks at every character once and decides at a `!` or a `;` what it has read.
Two facts say what comes out of it.  The texts of the tokens are the payload cut at every `;`
(`map_text_tokens`), and every token is divided at its first `!`, if it has one (`Token.Proper`).
A token is determined by its text, so these two leave nothing open.
-/

namespace CompletionCheck.Fixture

/-- What stands before the first `!` of a token, or all of it. -/
def Token.lead : Token → List Char
  | .symbol text => text
  | .forbidden before _ => before

/-- A token that stands between two `;` and is divided at its first `!`. -/
structure Token.Proper (t : Token) : Prop where
  divided : '!' ∉ t.lead
  whole : ';' ∉ t.text

theorem span_cases (p : Char → Bool) (cs : List Char) : ∃ run rest, cs.span p = (run, rest) ∧
    cs = run ++ rest ∧ (∀ c ∈ run, p c = true) ∧
    (rest = [] ∨ ∃ c later, rest = c :: later ∧ p c = false) := by
  refine ⟨cs.takeWhile p, cs.dropWhile p, List.span_eq_takeWhile_dropWhile p cs,
    List.takeWhile_append_dropWhile.symm, List.all_eq_true.mp List.all_takeWhile, ?_⟩
  induction cs with
  | nil => exact Or.inl rfl
  | cons c cs ih =>
      by_cases hc : p c = true
      · rw [List.dropWhile_cons_of_pos hc]
        exact ih
      · rw [List.dropWhile_cons_of_neg hc]
        exact Or.inr ⟨c, cs, rfl, Bool.eq_false_iff.mpr hc⟩

theorem Token.read_proper {cs rest : List Char} {t : Token} (h : Token.read cs = (t, rest)) :
    t.Proper ∧ cs = t.text ++ rest ∧ (rest = [] ∨ ∃ later, rest = ';' :: later) := by
  obtain ⟨run, left, hspan, hcs, hrun, hleft⟩ := span_cases (fun c => c ≠ ';' && c ≠ '!') cs
  have hclean : ';' ∉ run ∧ '!' ∉ run :=
    ⟨fun hmem => absurd (hrun _ hmem) (by decide), fun hmem => absurd (hrun _ hmem) (by decide)⟩
  rw [Token.read, hspan] at h
  obtain rfl | ⟨c, later, rfl, hc⟩ := hleft
  · cases h
    exact ⟨⟨hclean.2, hclean.1⟩, hcs, Or.inl rfl⟩
  · by_cases hmark : c = '!'
    · subst hmark
      obtain ⟨after, left', hspan', hlater, hafter, hleft'⟩ := span_cases (· ≠ ';') later
      simp only [hspan'] at h
      cases h
      have hbreak : ';' ∉ after := fun hmem => absurd (hafter _ hmem) (by decide)
      refine ⟨⟨hclean.2, ?_⟩, ?_, ?_⟩
      · simp [Token.text, hclean.1, hbreak]
      · rw [hcs, hlater]
        simp [Token.text]
      · obtain hnil | ⟨d, later', hcons, hd⟩ := hleft'
        · exact Or.inl hnil
        · obtain rfl : d = ';' := by simpa using hd
          exact Or.inr ⟨later', hcons⟩
    · obtain rfl : c = ';' := by
        rcases Bool.and_eq_false_iff.mp hc with hc | hc
        · simpa using hc
        · exact absurd (by simpa using hc) hmark
      obtain ⟨rfl, rfl⟩ : Token.symbol run = t ∧ ';' :: later = rest := Prod.mk.inj h
      exact ⟨⟨hclean.2, hclean.1⟩, hcs, Or.inr ⟨later, rfl⟩⟩

theorem readTokens_proper (limit : Nat) : ∀ {cs : List Char}, cs.length < limit →
    (readTokens limit cs).map Token.text = cs.splitOn ';' ∧
      ∀ t ∈ readTokens limit cs, t.Proper := by
  induction limit with
  | zero => intro cs h; exact absurd h (Nat.not_lt_zero _)
  | succ limit ih =>
      intro cs h
      rcases hread : Token.read cs with ⟨t, rest⟩
      obtain ⟨hproper, hcs, hrest⟩ := Token.read_proper hread
      rw [readTokens, hread]
      obtain rfl | ⟨later, rfl⟩ := hrest
      · rw [List.append_nil] at hcs
        rw [hcs]
        refine ⟨(List.splitOn_eq_singleton hproper.whole).symm, ?_⟩
        intro x hx
        rwa [List.mem_singleton.mp hx]
      · have hlength : later.length < limit := by
          rw [hcs, List.length_append, List.length_cons] at h
          omega
        obtain ⟨htexts, hall⟩ := ih hlength
        rw [hcs, List.splitOn_append_cons_self_of_not_mem hproper.whole]
        refine ⟨?_, List.forall_mem_cons.mpr ⟨hproper, hall⟩⟩
        rw [List.map_cons, htexts]

/-- The texts of the tokens are the payload cut at every `;`. -/
theorem map_text_tokens (payload : List Char) :
    (tokens payload).map Token.text = payload.splitOn ';' :=
  (readTokens_proper _ (Nat.lt_succ_self _)).1

theorem proper_of_mem_tokens {payload : List Char} {t : Token} (h : t ∈ tokens payload) :
    t.Proper :=
  (readTokens_proper _ (Nat.lt_succ_self _)).2 t h

/-- The text of tokens that follow another one, each behind its `;`. -/
def following (ts : List Token) : List Char :=
  ts.flatMap fun t => ';' :: t.text

@[simp] theorem following_nil : following [] = [] := rfl

@[simp] theorem following_cons (t : Token) (ts : List Token) :
    following (t :: ts) = ';' :: (t.text ++ following ts) := rfl

theorem intercalate_texts (ts : List Token) : ∀ t : Token,
    [';'].intercalate ((t :: ts).map Token.text) = t.text ++ following ts := by
  induction ts with
  | nil => intro t; simp
  | cons u ts ih =>
      intro t
      rw [List.map_cons, List.map_cons, List.intercalate_cons_cons, ← List.map_cons, ih u,
        following_cons, List.append_assoc, List.singleton_append]

theorem exists_tokens_eq_cons (payload : List Char) : ∃ t ts, tokens payload = t :: ts ∧
    payload = t.text ++ following ts := by
  have htexts := map_text_tokens payload
  cases hts : tokens payload with
  | nil =>
      rw [hts] at htexts
      exact absurd htexts.symm (List.splitOn_ne_nil ';' payload)
  | cons t ts =>
      refine ⟨t, ts, rfl, ?_⟩
      rw [← intercalate_texts, ← hts, htexts, List.intercalate_splitOn]

end CompletionCheck.Fixture
