import CompletionCheck.Proofs.Validation.FirstViolation

/-!
# What more candidates change

A completion list may hold anything besides what a case asks about, and it may repeat itself.  Two
kinds of candidates can be put into a list, at any places, without a change of the verdict: those
whose name the case neither expects nor forbids, and those whose name stands earlier in the longer
list.  `Padded` says that a list is another one with such candidates put in; `place` tells where
the candidates of the shorter list have gone.

Every place moves by a different amount, and the verdict is kept nevertheless because it depends on
first places alone.  A name that the case asks about never first stands at a candidate that was put
in: so its first places in the two lists correspond (`Padded.firstAt_iff`), and `place` keeps their
order.  From there on only what `Reports` says is compared.  The one thing in a report that is not
a matter of first places is how many names there were, and which, when a symbol is missing.
-/

namespace CompletionCheck

/-- The same violation in a longer list of names, where a name has moved to its `place`. -/
def Violation.moved (place : Nat → Nat) (names : List String) : Violation → Violation
  | .missing symbol line _ _ =>
    .missing symbol line names.length (if names.length < quotedBelow then some names else none)
  | .outOfOrder symbol index previous previousIndex =>
    .outOfOrder symbol (place index) previous (place previousIndex)
  | .unwanted symbol line index => .unwanted symbol line (place index)

namespace Validation

open Fixture (TestCase)

/-- A case asks about a symbol. -/
def Concerns (c : TestCase) (s : String) : Prop :=
  s ∈ c.expected ∨ s ∈ c.unwanted

instance (c : TestCase) (s : String) : Decidable (Concerns c s) :=
  inferInstanceAs (Decidable (s ∈ c.expected ∨ s ∈ c.unwanted))

/-- The long list is the short one with candidates put in that do not matter to the case. -/
structure Padded (c : TestCase) (short long : List Candidate) (place : Nat → Nat) : Prop where
  /-- The candidates of the short list stand in the long one. -/
  stands : ∀ i x, short[i]? = some x → long[place i]? = some x
  /-- They stand there in the same order. -/
  increasing : ∀ i j, i < j → j < short.length → place i < place j
  /-- The name of any other candidate is of no concern, or stands earlier in the long list. -/
  idle : ∀ j x, long[j]? = some x → (∀ i < short.length, place i ≠ j) →
    ¬ Concerns c (x.nameIn c.dialect) ∨ ∃ k < j, (seen c long)[k]? = some (x.nameIn c.dialect)

section Padding

variable {c : TestCase} {short long : List Candidate} {place : Nat → Nat} {s : String}

theorem getElem?_seen {candidates : List Candidate} {i : Nat} :
    (seen c candidates)[i]? = some s ↔ ∃ x, candidates[i]? = some x ∧ x.nameIn c.dialect = s := by
  rw [seen, List.getElem?_map, Option.map_eq_some_iff]

/-! ## First places correspond -/

theorem Padded.getElem?_place (h : Padded c short long place) {i : Nat}
    (hi : (seen c short)[i]? = some s) : (seen c long)[place i]? = some s := by
  obtain ⟨x, hx, hs⟩ := getElem?_seen.mp hi
  exact getElem?_seen.mpr ⟨x, h.stands i x hx, hs⟩

theorem FirstAt.lt_length {i : Nat} (h : FirstAt (seen c short) s i) : i < short.length := by
  obtain ⟨hi, -⟩ := List.getElem?_eq_some_iff.mp h.here
  rwa [seen, List.length_map] at hi

theorem Padded.place_le_iff (h : Padded c short long place) {i j : Nat} (hi : i < short.length)
    (hj : j < short.length) : place j ≤ place i ↔ j ≤ i := by
  constructor
  · intro hle
    exact Nat.le_of_not_lt fun hlt => absurd (h.increasing i j hlt hj) (Nat.not_lt.mpr hle)
  · intro hle
    rcases Nat.lt_or_eq_of_le hle with hlt | rfl
    · exact Nat.le_of_lt (h.increasing j i hlt hi)
    · exact Nat.le_refl _

theorem Padded.exists_firstAt_short (h : Padded c short long place) (hs : Concerns c s) {j : Nat}
    (hj : FirstAt (seen c long) s j) : ∃ i, j = place i ∧ FirstAt (seen c short) s i := by
  obtain ⟨x, hx, rfl⟩ := getElem?_seen.mp hj.here
  by_cases hin : ∃ i < short.length, place i = j
  · obtain ⟨i, hi, rfl⟩ := hin
    have hhere : short[i]? = some x := by
      have hstands := h.stands i _ (List.getElem?_eq_getElem hi)
      rw [List.getElem?_eq_getElem hi, ← hstands, hx]
    refine ⟨i, rfl, getElem?_seen.mpr ⟨x, hhere, rfl⟩, fun k hk => ?_⟩
    obtain ⟨y, hy, -⟩ := getElem?_seen.mp hk
    obtain ⟨hbound, -⟩ := List.getElem?_eq_some_iff.mp hy
    exact (h.place_le_iff hbound hi).mp (hj.least _ (h.getElem?_place hk))
  · -- a candidate that was put in is of no concern, or not the first of its name
    rcases h.idle j x hx fun i hi heq => hin ⟨i, hi, heq⟩ with hidle | ⟨k, hlt, hk⟩
    · exact absurd hs hidle
    · exact absurd (hj.least k hk) (Nat.not_le.mpr hlt)

theorem Padded.firstAt_place (h : Padded c short long place) (hs : Concerns c s) {i : Nat}
    (hi : FirstAt (seen c short) s i) : FirstAt (seen c long) s (place i) := by
  obtain ⟨j, hj⟩ := exists_firstAt (List.mem_of_getElem? (h.getElem?_place hi.here))
  obtain ⟨k, rfl, hk⟩ := h.exists_firstAt_short hs hj
  rwa [hi.unique hk]

theorem Padded.firstAt_iff (h : Padded c short long place) (hs : Concerns c s) {j : Nat} :
    FirstAt (seen c long) s j ↔ ∃ i, j = place i ∧ FirstAt (seen c short) s i := by
  constructor
  · exact h.exists_firstAt_short hs
  · rintro ⟨i, rfl, hi⟩
    exact h.firstAt_place hs hi

theorem Padded.mem_iff (h : Padded c short long place) (hs : Concerns c s) :
    s ∈ seen c long ↔ s ∈ seen c short := by
  constructor
  · intro hmem
    obtain ⟨j, hj⟩ := exists_firstAt hmem
    obtain ⟨i, -, hi⟩ := h.exists_firstAt_short hs hj
    exact hi.mem
  · intro hmem
    obtain ⟨i, hi⟩ := exists_firstAt hmem
    exact (h.firstAt_place hs hi).mem

/-! ## Reports correspond -/

theorem concerns_of_expected {k : Nat} (h : c.expected[k]? = some s) : Concerns c s :=
  Or.inl (List.mem_of_getElem? h)

theorem Padded.breaksAt_iff (h : Padded c short long place) {k : Nat} :
    BreaksAt (seen c long) c.expected k ↔ BreaksAt (seen c short) c.expected k := by
  constructor
  · intro hbreaks
    cases hbreaks with
    | absent hk habsent =>
        exact .absent hk fun hmem => habsent ((h.mem_iff (concerns_of_expected hk)).mpr hmem)
    | early hm hp hs hi hj hle =>
        obtain ⟨i, rfl, hfirst⟩ := h.exists_firstAt_short (concerns_of_expected hp) hi
        obtain ⟨j, rfl, hsecond⟩ := h.exists_firstAt_short (concerns_of_expected hs) hj
        exact .early hm hp hs hfirst hsecond
          ((h.place_le_iff hfirst.lt_length hsecond.lt_length).mp hle)
  · intro hbreaks
    cases hbreaks with
    | absent hk habsent =>
        exact .absent hk fun hmem => habsent ((h.mem_iff (concerns_of_expected hk)).mp hmem)
    | early hm hp hs hi hj hle =>
        exact .early hm hp hs (h.firstAt_place (concerns_of_expected hp) hi)
          (h.firstAt_place (concerns_of_expected hs) hj)
          ((h.place_le_iff hi.lt_length hj.lt_length).mpr hle)

theorem Padded.firstBreak (h : Padded c short long place) {k : Nat}
    (hk : FirstBreak (seen c short) c.expected k) : FirstBreak (seen c long) c.expected k where
  breaks := h.breaksAt_iff.mpr hk.breaks
  least m hm hbreaks := hk.least m hm (h.breaksAt_iff.mp hbreaks)

/-- What is to be reported of the short list is, at its new places, what is to be reported of the
long one. -/
theorem Padded.reports (h : Padded c short long place) {v : Option Violation}
    (hv : Reports c short v) : Reports c long (v.map (.moved place (seen c long))) := by
  have clean (hshort : ∀ k, ¬ BreaksAt (seen c short) c.expected k) (k : Nat) :
      ¬ BreaksAt (seen c long) c.expected k :=
    fun hbreaks => hshort k (h.breaksAt_iff.mp hbreaks)
  cases hv with
  | nothing hsound hclean =>
      exact .nothing (clean hsound) fun s hs hmem => hclean s hs ((h.mem_iff (Or.inr hs)).mp hmem)
  | missing hbreak hs habsent =>
      have hlength : (seen c long).length = long.length := List.length_map _
      rw [Option.map_some, Violation.moved, hlength]
      exact .missing (h.firstBreak hbreak) hs
        fun hmem => habsent ((h.mem_iff (concerns_of_expected hs)).mp hmem)
  | outOfOrder hbreak hp hs hi hj hle =>
      exact .outOfOrder (h.firstBreak hbreak) hp hs (h.firstAt_place (concerns_of_expected hp) hi)
        (h.firstAt_place (concerns_of_expected hs) hj)
        ((h.place_le_iff hi.lt_length hj.lt_length).mpr hle)
  | unwanted hsound hs hi hleast =>
      exact .unwanted (clean hsound) hs (h.firstAt_place (Or.inr hs) hi)
        fun t ht hmem => hleast t ht ((h.mem_iff (Or.inr ht)).mp hmem)

end Padding

/-- **Only first occurrences of names that matter decide.**  Candidates put into a list, whose names
the case does not ask about or that stand earlier anyway, leave the verdict as it was: the list
passes exactly if it passed before, and otherwise the same violation is reported about the same
symbols, at the places to which their first occurrences have moved. -/
theorem validate_padded {c : TestCase} {short long : List Candidate} {place : Nat → Nat}
    (h : Padded c short long place) :
    (validate c long = none ↔ validate c short = none) ∧
    validate c long = (validate c short).map (.moved place (seen c long)) ∧
    ∀ s, Concerns c s → ∀ j,
      (FirstAt (seen c long) s j ↔ ∃ i, j = place i ∧ FirstAt (seen c short) s i) := by
  have hmoved : validate c long = (validate c short).map (.moved place (seen c long)) :=
    (reports_validate c long).unique (h.reports (reports_validate c short))
  refine ⟨?_, hmoved, fun s hs j => h.firstAt_iff hs⟩
  rw [hmoved, Option.map_eq_none_iff]

/-- A Python case that expects `a` before `b`. -/
def orderedCase : TestCase :=
  ⟨"f.py", "x. # a; b", "x. ", 1, 0, .python, 2, ["a", "b"], .empty⟩

/-- A list in which `b` first stands before `a`. -/
def reversedNames : List Candidate :=
  [⟨"b", none⟩, ⟨"qualified", some "a"⟩]

/-- The same list with noise in front of it, and with both names once more. -/
def paddedNames : List Candidate :=
  [⟨"a", some "noise"⟩, ⟨"b", none⟩, ⟨"a", some "b"⟩, ⟨"qualified", some "a"⟩, ⟨"b", none⟩]

/-- Where the two names have gone. -/
def paddedPlace (i : Nat) : Nat := 2 * i + 1

theorem validate_padded_reversed :
    Padded orderedCase reversedNames paddedNames paddedPlace ∧
    validate orderedCase reversedNames = some (.outOfOrder "b" 0 "a" 1) ∧
    validate orderedCase paddedNames = some (.outOfOrder "b" 1 "a" 3) := by
  have hpadded : Padded orderedCase reversedNames paddedNames paddedPlace := by
    refine ⟨fun i x hx => ?_, fun i j hlt _ => ?_, fun j x hx hnew => ?_⟩
    · match i, hx with
      | 0, hx | 1, hx => exact hx
    · rw [paddedPlace, paddedPlace]
      omega
    · match j, hx with
      | 0, hx => cases hx; exact Or.inl (by decide)
      | 1, _ => exact absurd rfl (hnew 0 (by decide))
      | 2, hx => cases hx; exact Or.inr ⟨1, by decide, rfl⟩
      | 3, _ => exact absurd rfl (hnew 1 (by decide))
      | 4, hx => cases hx; exact Or.inr ⟨1, by decide, rfl⟩
  have hshort : validate orderedCase reversedNames = some (.outOfOrder "b" 0 "a" 1) := by decide
  refine ⟨hpadded, hshort, ?_⟩
  rw [(validate_padded hpadded).2.1, hshort]
  rfl

end Validation

end CompletionCheck
