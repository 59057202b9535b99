import CompletionCheck.Proofs.Fixture.Splitting
import CompletionCheck.Proofs.Validation.FirstViolation

/-!
# Which comments can be met

A case is only worth checking if some completion list meets it.  Two things stand in the way: a
symbol that is expected and forbidden at once, which has to be there and may not be, and a symbol
that is expected twice, which would have to stand first before itself.  There is nothing else,
because otherwise the list of the expected symbols in their order meets the case.

Payloads of the first kind are refused when they are read.  Those of the second kind are not: they
are answered with expectations that no list meets.
-/

namespace CompletionCheck.Validation

open Fixture (TestCase Expectations asked)

/-- A case with these expectations, on whatever line and in whatever dialect. -/
structure Asks (c : TestCase) (e : Expectations) : Prop where
  expected : c.expected = e.expected
  unwanted : c.unwanted = e.unwanted

/-- Candidates with given names and no others. -/
def named (names : List String) : List Candidate :=
  names.map fun name => ⟨name, none⟩

section Meeting

variable {c : TestCase} {candidates : List Candidate}

theorem seen_named (c : TestCase) (names : List String) : seen c (named names) = names := by
  have hname : (fun candidate : Candidate => candidate.nameIn c.dialect)
      ∘ (fun name => (⟨name, none⟩ : Candidate)) = id := by
    funext name
    simp [Candidate.nameIn]
  rw [seen, named, List.map_map, hname, List.map_id]

theorem not_meets_of_conflict {s : String} (hexpected : s ∈ c.expected)
    (hunwanted : s ∈ c.unwanted) : ¬ Meets c candidates := by
  intro h
  obtain ⟨i, hi⟩ := h.present s hexpected
  exact h.clean s hunwanted hi.mem

/-- The expected symbols themselves meet a case that forbids none of them and expects none of them
twice. -/
theorem meets_of_seen_expected (hagreed : ∀ s ∈ c.expected, s ∉ c.unwanted)
    (hnodup : c.expected.Nodup) (hseen : seen c candidates = c.expected) : Meets c candidates where
  present := by
    rw [hseen]
    exact fun s hs => exists_firstAt hs
  increasing := by
    rw [hseen]
    exact pairwise_before_of_nodup hnodup
  clean := by
    rw [hseen]
    exact fun s hunwanted hs => hagreed s hs hunwanted

/-- A case without a conflict can be met exactly if it expects nothing twice. -/
theorem exists_meets_iff (hagreed : ∀ s ∈ c.expected, s ∉ c.unwanted) :
    (∃ candidates, Meets c candidates) ↔ c.expected.Nodup := by
  constructor
  · rintro ⟨candidates, h⟩
    exact nodup_of_increasing h.present h.increasing
  · intro hnodup
    exact ⟨named c.expected, meets_of_seen_expected hagreed hnodup (seen_named c c.expected)⟩

end Meeting

/-- **A refused comment cannot be met, and any other one can unless it expects a symbol twice.**  In
a case that asks what a refused payload asks every completion list has a violation.  In a case with
the expectations of any other payload some list has none exactly if no symbol is expected twice, and
then every list that shows the expected symbols in their order has none. -/
theorem parse_decides_satisfiability (payload : List Char) (c : TestCase) :
    (∀ conflict, Expectations.parse payload = .error conflict → Asks c (asked payload) →
      ∀ candidates, validate c candidates ≠ none) ∧
    (∀ e, Expectations.parse payload = .ok e → Asks c e →
      ((∃ candidates, validate c candidates = none) ↔ e.expected.Nodup) ∧
      (e.expected.Nodup → validate c (named e.expected) = none ∧
        ∀ candidates, seen c candidates = e.expected → validate c candidates = none)) := by
  constructor
  · intro conflict hparse hasks candidates hnone
    obtain ⟨s, hexpected, hunwanted⟩ := Fixture.parse_conflict_iff.mp ⟨conflict, hparse⟩
    refine not_meets_of_conflict (s := s) ?_ ?_ (validate_eq_none_iff_meets.mp hnone)
    · rw [hasks.expected]
      exact hexpected
    · rw [hasks.unwanted]
      exact Fixture.mem_asked.mpr hunwanted
  · intro e hparse hasks
    have hagreed : ∀ s ∈ c.expected, s ∉ c.unwanted := by
      rw [hasks.expected, hasks.unwanted]
      cases Fixture.parse_eq_iff_answers.mp hparse with
      | agreed hagreed => exact fun s hs hunwanted => hagreed s hs (Fixture.mem_asked.mp hunwanted)
    simp only [validate_eq_none_iff_meets]
    rw [← hasks.expected]
    refine ⟨exists_meets_iff hagreed, fun hnodup => ⟨?_, fun candidates hseen => ?_⟩⟩
    · exact meets_of_seen_expected hagreed hnodup (seen_named c c.expected)
    · exact meets_of_seen_expected hagreed hnodup hseen

end CompletionCheck.Validation
