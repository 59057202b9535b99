import CompletionCheck.Proofs.Text.ByteOrder
import CompletionCheck.Validation

/-!
# Which lists meet a case, and what is reported of the others

The validator goes through the expected symbols once and remembers where it found the last one.
What it decides is a statement about all of them together: each stands in the list, and the places
where they first stand increase (`Meets`).  What it reports is the first place among the expected
symbols where this breaks, and only when there is none the least unwanted symbol (`Reports`).

Both follow from what the loop carries: the expected symbols so far are unbroken, and the
last of them first stands where the loop remembers it (`Remembers`).  A break is a matter of a
symbol and its predecessor alone (`BreaksAt`), and because first places are unique, a list without a
break between neighbours is increasing from end to end (`increasing_of_unbroken`).

First places are what makes the order a subsequence.  The converse fails for lists with repeated
names, where a subsequence may use a later occurrence, and holds for all others.
-/

namespace CompletionCheck.Validation

open Fixture (TestCase)

/-! ## First places -/

/-- The least place at which a symbol stands among names. -/
structure FirstAt (names : List String) (s : String) (i : Nat) : Prop where
  here : names[i]? = some s
  least : ∀ j, names[j]? = some s → i ≤ j

section Places

variable {names : List String} {s t : String} {i j : Nat}

theorem FirstAt.unique (h : FirstAt names s i) (h' : FirstAt names s j) : i = j :=
  Nat.le_antisymm (h.least j h'.here) (h'.least i h.here)

theorem FirstAt.mem (h : FirstAt names s i) : s ∈ names :=
  List.mem_of_getElem? h.here

theorem idxOf?_eq_some_iff_firstAt : names.idxOf? s = some i ↔ FirstAt names s i := by
  rw [List.idxOf?_eq_some_iff]
  constructor
  · rintro ⟨hi, hs, hbefore⟩
    refine ⟨List.getElem?_eq_some_iff.mpr ⟨hi, hs⟩, fun j hj => ?_⟩
    obtain ⟨_, hj⟩ := List.getElem?_eq_some_iff.mp hj
    exact Nat.le_of_not_lt fun hlt => hbefore j hlt hj
  · rintro ⟨hhere, hleast⟩
    obtain ⟨hi, hs⟩ := List.getElem?_eq_some_iff.mp hhere
    refine ⟨hi, hs, fun j hlt hj => ?_⟩
    have hle := hleast j (List.getElem?_eq_some_iff.mpr ⟨Nat.lt_trans hlt hi, hj⟩)
    omega

theorem exists_firstAt (h : s ∈ names) : ∃ i, FirstAt names s i := by
  obtain ⟨i, hi⟩ := Option.isSome_iff_exists.mp (List.isSome_idxOf?.mpr h)
  exact ⟨i, idxOf?_eq_some_iff_firstAt.mp hi⟩

theorem firstAt_of_nodup (h : names.Nodup) (hi : names[i]? = some s) : FirstAt names s i := by
  refine ⟨hi, fun j hj => Nat.le_of_eq ?_⟩
  obtain ⟨hbound, -⟩ := List.getElem?_eq_some_iff.mp hi
  exact (List.getElem?_inj hbound h).mp (hi.trans hj.symm)

end Places

/-! ## What a case asks of a list -/

/-- The names that a case sees in a list. -/
def seen (c : TestCase) (candidates : List Candidate) : List String :=
  candidates.map (·.nameIn c.dialect)

/-- A symbol first stands before another one. -/
def Before (names : List String) (p s : String) : Prop :=
  ∀ i j, FirstAt names p i → FirstAt names s j → i < j

/-- A list meets a case: every expected symbol is seen, each first stands behind where all expected
before it first stand, and no unwanted one is seen. -/
structure Meets (c : TestCase) (candidates : List Candidate) : Prop where
  present : ∀ s ∈ c.expected, ∃ i, FirstAt (seen c candidates) s i
  increasing : c.expected.Pairwise (Before (seen c candidates))
  clean : ∀ s ∈ c.unwanted, s ∉ seen c candidates

/-- The expected symbol number `k`, counted from zero, is not there, or first stands no later than
the one before it. -/
inductive BreaksAt (names expected : List String) (k : Nat) : Prop
  | absent {s : String} : expected[k]? = some s → s ∉ names → BreaksAt names expected k
  | early {m i j : Nat} {p s : String} : k = m + 1 → expected[m]? = some p →
      expected[k]? = some s → FirstAt names p i → FirstAt names s j → j ≤ i →
      BreaksAt names expected k

/-- The first expected symbol that breaks the order. -/
structure FirstBreak (names expected : List String) (k : Nat) : Prop where
  breaks : BreaksAt names expected k
  least : ∀ m < k, ¬ BreaksAt names expected m

/-- What is to be reported of a list.  Unwanted symbols are ordered by their bytes. -/
inductive Reports (c : TestCase) (candidates : List Candidate) : Option Violation → Prop
  | nothing : (∀ k, ¬ BreaksAt (seen c candidates) c.expected k) →
      (∀ s ∈ c.unwanted, s ∉ seen c candidates) → Reports c candidates none
  | missing {k : Nat} {s : String} : FirstBreak (seen c candidates) c.expected k →
      c.expected[k]? = some s → s ∉ seen c candidates →
      Reports c candidates (some (.missing s c.code candidates.length
        (if candidates.length < 5 then some (seen c candidates) else none)))
  | outOfOrder {k i j : Nat} {p s : String} :
      FirstBreak (seen c candidates) c.expected (k + 1) → c.expected[k]? = some p →
      c.expected[k + 1]? = some s → FirstAt (seen c candidates) p i →
      FirstAt (seen c candidates) s j → j ≤ i →
      Reports c candidates (some (.outOfOrder s j p i))
  | unwanted {i : Nat} {s : String} : (∀ k, ¬ BreaksAt (seen c candidates) c.expected k) →
      s ∈ c.unwanted → FirstAt (seen c candidates) s i →
      (∀ t ∈ c.unwanted, t ∈ seen c candidates →
        ¬ Text.encode t.toList < Text.encode s.toList) →
      Reports c candidates (some (.unwanted s c.code i))

/-! ## The loop over the expected symbols -/

section Loop

variable {names expected : List String} {line : String}

/-- What the loop remembers of the expected symbols that it has passed. -/
inductive Remembers (names done : List String) : Option (String × Nat) → Prop
  | nothing : done = [] → Remembers names done none
  | last {earlier : List String} {p : String} {i : Nat} : done = earlier ++ [p] →
      FirstAt names p i → Remembers names done (some (p, i))

/-- What comes out of the loop over the expected symbols, said without the loop: the first break of
the order, in the words of its kind. -/
inductive ExpectedReport (line : String) (names expected : List String) : Option Violation → Prop
  | unbroken : (∀ k, ¬ BreaksAt names expected k) → ExpectedReport line names expected none
  | missing {k : Nat} {s : String} : FirstBreak names expected k → expected[k]? = some s →
      s ∉ names → ExpectedReport line names expected (some (.missing s line names.length
        (if names.length < 5 then some names else none)))
  | outOfOrder {k i j : Nat} {p s : String} : FirstBreak names expected (k + 1) →
      expected[k]? = some p → expected[k + 1]? = some s → FirstAt names p i →
      FirstAt names s j → j ≤ i → ExpectedReport line names expected (some (.outOfOrder s j p i))

theorem not_breaksAt_of_length_le {k : Nat} (h : expected.length ≤ k) :
    ¬ BreaksAt names expected k := by
  intro hbreaks
  cases hbreaks with
  | absent hk | early _ _ hk =>
      rw [List.getElem?_eq_none h] at hk
      exact absurd hk (by simp)

theorem Remembers.not_breaksAt {done rest : List String} {s : String} {j : Nat}
    {last : Option (String × Nat)} (h : Remembers names done last) (hs : FirstAt names s j)
    (hafter : ∀ p i, last = some (p, i) → i < j) :
    ¬ BreaksAt names (done ++ s :: rest) done.length := by
  have hhere : (done ++ s :: rest)[done.length]? = some s := by simp
  intro hbreaks
  cases hbreaks with
  | absent ht habsent =>
      rw [hhere] at ht
      cases ht
      exact habsent hs.mem
  | @early m i' j' p t hk hp ht hpi htj hle =>
      rw [hhere] at ht
      cases ht
      cases h with
      | nothing hdone => rw [hdone] at hk; exact absurd hk (by simp)
      | @last earlier q i hdone hq =>
          obtain rfl : m = earlier.length := by
            rw [hdone, List.length_append] at hk
            exact (Nat.succ.inj hk).symm
          have hprevious : (done ++ s :: rest)[earlier.length]? = some q := by
            rw [hdone]
            simp
          rw [hprevious] at hp
          cases hp
          have hlt := hafter _ _ rfl
          rw [hpi.unique hq, htj.unique hs] at hle
          omega

theorem expectedReport_expectedViolation? (rest : List String) : ∀ {done : List String}
    {last : Option (String × Nat)}, Remembers names done last →
      (∀ m < done.length, ¬ BreaksAt names (done ++ rest) m) →
      ExpectedReport line names (done ++ rest) (expectedViolation? line names last rest) := by
  induction rest with
  | nil =>
      intro done last _ hsound
      refine .unbroken fun k => ?_
      by_cases hk : k < done.length
      · exact hsound k hk
      · exact not_breaksAt_of_length_le (by simpa using hk)
  | cons s rest ih =>
      intro done last hlast hsound
      have hhere : (done ++ s :: rest)[done.length]? = some s := by simp
      -- a symbol that breaks nothing joins those that were passed
      have next {j : Nat} (hs : FirstAt names s j)
          (hafter : ∀ p i, last = some (p, i) → i < j) :
          ExpectedReport line names (done ++ s :: rest)
            (expectedViolation? line names (some (s, j)) rest) := by
        have hsplit : done ++ s :: rest = (done ++ [s]) ++ rest := by simp
        rw [hsplit]
        refine ih (.last rfl hs) fun m hm => ?_
        rw [← hsplit]
        rcases Nat.lt_succ_iff_lt_or_eq.mp (by simpa using hm) with hm | rfl
        · exact hsound m hm
        · exact hlast.not_breaksAt hs hafter
      rw [expectedViolation?]
      cases hs : names.idxOf? s with
      | none =>
          have habsent : s ∉ names := List.idxOf?_eq_none_iff.mp hs
          exact .missing ⟨.absent hhere habsent, hsound⟩ hhere habsent
      | some j =>
          have hs := idxOf?_eq_some_iff_firstAt.mp hs
          cases hlast with
          | nothing hdone => exact next hs (by simp)
          | @last earlier p i hdone hp =>
              dsimp only
              split
              · next hle =>
                  have hlength : done.length = earlier.length + 1 := by simp [hdone]
                  have hprevious : (done ++ s :: rest)[earlier.length]? = some p := by
                    rw [hdone]
                    simp
                  rw [hlength] at hhere hsound
                  exact .outOfOrder ⟨.early rfl hprevious hhere hp hs hle, hsound⟩ hprevious hhere
                    hp hs hle
              · next hle =>
                  refine next hs fun q k hq => ?_
                  cases hq
                  exact Nat.lt_of_not_le hle

end Loop

/-! ## Unbroken lists -/

section Unbroken

variable {names expected : List String}

theorem mem_of_unbroken (h : ∀ k, ¬ BreaksAt names expected k) : ∀ s ∈ expected, s ∈ names := by
  intro s hs
  obtain ⟨k, hk⟩ := List.mem_iff_getElem?.mp hs
  exact Classical.byContradiction fun habsent => h k (.absent hk habsent)

theorem increasing_of_unbroken (h : ∀ k, ¬ BreaksAt names expected k) :
    expected.Pairwise (Before names) := by
  have ordered : ∀ d m p s, expected[m]? = some p → expected[m + 1 + d]? = some s →
      Before names p s := by
    intro d
    induction d with
    | zero =>
        intro m p s hp hs i j hi hj
        exact Nat.lt_of_not_le fun hle => h (m + 1) (.early rfl hp hs hi hj hle)
    | succ d ih =>
        intro m p s hp hs i j hi hj
        have hbound : m + 1 + d < expected.length := by
          have := (List.getElem?_eq_some_iff.mp hs).1
          omega
        have hq : expected[m + 1 + d]? = some expected[m + 1 + d] :=
          List.getElem?_eq_getElem hbound
        obtain ⟨k, hk⟩ := exists_firstAt
          (mem_of_unbroken h _ (List.getElem_mem hbound))
        have hfirst : i < k := ih m p _ hp hq i k hi hk
        have hsecond : k < j := Nat.lt_of_not_le fun hle =>
          h (m + 1 + d + 1) (.early rfl hq hs hk hj hle)
        exact Nat.lt_trans hfirst hsecond
  refine List.pairwise_iff_getElem.mpr fun m k hm hk hmk => ?_
  obtain ⟨d, rfl⟩ := Nat.exists_eq_add_of_lt hmk
  exact ordered d m _ _ (List.getElem?_eq_getElem hm)
    (by rw [show m + 1 + d = m + d + 1 by omega]; exact List.getElem?_eq_getElem hk)

theorem unbroken_iff : (∀ k, ¬ BreaksAt names expected k) ↔
    (∀ s ∈ expected, ∃ i, FirstAt names s i) ∧ expected.Pairwise (Before names) := by
  constructor
  · intro h
    exact ⟨fun s hs => exists_firstAt (mem_of_unbroken h s hs), increasing_of_unbroken h⟩
  · rintro ⟨hpresent, hincreasing⟩ k hbreaks
    cases hbreaks with
    | absent hk habsent =>
        obtain ⟨i, hi⟩ := hpresent _ (List.mem_of_getElem? hk)
        exact habsent hi.mem
    | early hk hp hs hi hj hle =>
        subst hk
        obtain ⟨hm, rfl⟩ := List.getElem?_eq_some_iff.mp hp
        obtain ⟨hk, rfl⟩ := List.getElem?_eq_some_iff.mp hs
        have hbefore := List.pairwise_iff_getElem.mp hincreasing _ _ hm hk (Nat.lt_succ_self _)
        have hlt := hbefore _ _ hi hj
        omega

end Unbroken

/-! ## Subsequences -/

section Subsequences

variable {names expected : List String}

theorem nodup_of_increasing (hpresent : ∀ s ∈ expected, ∃ i, FirstAt names s i)
    (h : expected.Pairwise (Before names)) : expected.Nodup := by
  refine h.imp_of_mem fun {p s} hp _ hbefore heq => ?_
  subst heq
  obtain ⟨i, hi⟩ := hpresent p hp
  exact Nat.lt_irrefl i (hbefore i i hi hi)

/-- Symbols whose first places increase from some place on stand there in this order. -/
theorem sublist_drop_of_increasing (expected : List String) : ∀ {n : Nat},
    (∀ s ∈ expected, ∃ i, FirstAt names s i ∧ n ≤ i) → expected.Pairwise (Before names) →
      expected.Sublist (names.drop n) := by
  induction expected with
  | nil => intro n _ _; exact List.nil_sublist _
  | cons s rest ih =>
      intro n hpresent h
      obtain ⟨hs, hrest⟩ := List.pairwise_cons.mp h
      obtain ⟨i, hi, hn⟩ := hpresent s List.mem_cons_self
      obtain ⟨hbound, hhere⟩ := List.getElem?_eq_some_iff.mp hi.here
      have hlater : rest.Sublist (names.drop (i + 1)) := by
        refine ih (fun t ht => ?_) hrest
        obtain ⟨j, hj, -⟩ := hpresent t (List.mem_cons_of_mem _ ht)
        exact ⟨j, hj, hs t ht i j hi hj⟩
      have hstand : (s :: rest).Sublist (names.drop i) := by
        rw [List.drop_eq_getElem_cons hbound, hhere]
        exact hlater.cons_cons s
      exact hstand.trans (List.drop_sublist_drop_left names hn)

theorem sublist_of_increasing (hpresent : ∀ s ∈ expected, ∃ i, FirstAt names s i)
    (h : expected.Pairwise (Before names)) : expected.Sublist names := by
  have hdrop := sublist_drop_of_increasing (n := 0) expected
    (fun s hs => (hpresent s hs).imp fun i hi => ⟨hi, Nat.zero_le i⟩) h
  rwa [List.drop_zero] at hdrop

theorem pairwise_before_of_nodup (h : names.Nodup) : names.Pairwise (Before names) := by
  refine List.pairwise_iff_getElem.mpr fun m k hm hk hmk i j hi hj => ?_
  rw [hi.unique (firstAt_of_nodup h (List.getElem?_eq_getElem hm)),
    hj.unique (firstAt_of_nodup h (List.getElem?_eq_getElem hk))]
  exact hmk

end Subsequences

/-! ## The whole validation -/

section Whole

variable {c : TestCase} {candidates : List Candidate}

theorem FirstBreak.unique {names expected : List String} {k m : Nat}
    (h : FirstBreak names expected k) (h' : FirstBreak names expected m) : k = m := by
  rcases Nat.lt_trichotomy k m with hlt | heq | hlt
  · exact absurd h.breaks (h'.least k hlt)
  · exact heq
  · exact absurd h'.breaks (h.least m hlt)

/-- The set holds its symbols in the order of their bytes, so the first one found is the least. -/
theorem unwantedViolation?_least {line : String} {names : List String} {set : Fixture.SymbolSet}
    {v : Violation} (h : unwantedViolation? line names set.symbols = some v) :
    ∃ s i, v = .unwanted s line i ∧ s ∈ set ∧ FirstAt names s i ∧
      ∀ t ∈ set, t ∈ names → ¬ Text.encode t.toList < Text.encode s.toList := by
  obtain ⟨before, s, after, hsymbols, hs, hbefore⟩ := List.findSome?_eq_some_iff.mp h
  obtain ⟨i, hi, rfl⟩ := Option.map_eq_some_iff.mp hs
  refine ⟨s, i, rfl, ?_, idxOf?_eq_some_iff_firstAt.mp hi, fun t ht hthere => ?_⟩
  · show s ∈ set.symbols
    rw [hsymbols]
    simp
  · rw [Text.encode_lt_encode_iff]
    have hincreasing := set.increasing
    rw [hsymbols, List.pairwise_append, List.pairwise_cons] at hincreasing
    have ht : t ∈ before ++ s :: after := hsymbols ▸ ht
    rcases List.mem_append.mp ht with ht | ht
    · have hnot := Option.map_eq_none_iff.mp (hbefore t ht)
      exact absurd hthere (List.idxOf?_eq_none_iff.mp hnot)
    · rcases List.mem_cons.mp ht with rfl | ht
      · exact String.lt_irrefl _
      · exact String.lt_asymm (hincreasing.2.1.1 t ht)

theorem reports_validate (c : TestCase) (candidates : List Candidate) :
    Reports c candidates (validate c candidates) := by
  have hlength : (seen c candidates).length = candidates.length := List.length_map _
  have hreport : ExpectedReport c.code (seen c candidates) ([] ++ c.expected)
      (expectedViolation? c.code (seen c candidates) none c.expected) :=
    expectedReport_expectedViolation? c.expected (.nothing rfl) (by simp)
  rw [List.nil_append] at hreport
  rw [show validate c candidates = checkNames c (seen c candidates) from rfl, checkNames]
  generalize hfirst : expectedViolation? c.code (seen c candidates) none c.expected = first
  rw [hfirst] at hreport
  cases hreport with
  | unbroken hsound =>
      rw [Option.none_or]
      cases hsecond : unwantedViolation? c.code (seen c candidates) c.unwanted.symbols with
      | none =>
          refine .nothing hsound fun s hs => ?_
          have hnone := List.findSome?_eq_none_iff.mp hsecond s hs
          exact List.idxOf?_eq_none_iff.mp (Option.map_eq_none_iff.mp hnone)
      | some v =>
          obtain ⟨s, i, rfl, hs, hi, hleast⟩ := unwantedViolation?_least hsecond
          exact .unwanted hsound hs hi hleast
  | missing hbreak hs habsent =>
      rw [Option.some_or, hlength]
      exact .missing hbreak hs habsent
  | outOfOrder hbreak hp hs hi hj hle =>
      exact .outOfOrder hbreak hp hs hi hj hle

theorem Reports.unique {v w : Option Violation} (h : Reports c candidates v)
    (h' : Reports c candidates w) : v = w := by
  cases h with
  | nothing hsound hclean =>
      cases h' with
      | nothing => rfl
      | missing hbreak | outOfOrder hbreak => exact absurd hbreak.breaks (hsound _)
      | unwanted _ hs hi => exact absurd hi.mem (hclean _ hs)
  | missing hbreak hs habsent =>
      cases h' with
      | nothing hsound | unwanted hsound => exact absurd hbreak.breaks (hsound _)
      | missing hbreak' hs' =>
          obtain rfl := hbreak.unique hbreak'
          rw [Option.some.inj (hs.symm.trans hs')]
      | outOfOrder hbreak' _ hs' _ hj =>
          obtain rfl := hbreak.unique hbreak'
          rw [Option.some.inj (hs.symm.trans hs')] at habsent
          exact absurd hj.mem habsent
  | outOfOrder hbreak hp hs hi hj =>
      cases h' with
      | nothing hsound | unwanted hsound => exact absurd hbreak.breaks (hsound _)
      | missing hbreak' hs' habsent =>
          obtain rfl := hbreak.unique hbreak'
          rw [Option.some.inj (hs'.symm.trans hs)] at habsent
          exact absurd hj.mem habsent
      | outOfOrder hbreak' hp' hs' hi' hj' =>
          obtain rfl := Nat.succ.inj (hbreak.unique hbreak')
          obtain rfl := Option.some.inj (hp.symm.trans hp')
          obtain rfl := Option.some.inj (hs.symm.trans hs')
          rw [hi.unique hi', hj.unique hj']
  | unwanted hsound hs hi hleast =>
      cases h' with
      | nothing _ hclean => exact absurd hi.mem (hclean _ hs)
      | missing hbreak | outOfOrder hbreak => exact absurd hbreak.breaks (hsound _)
      | unwanted _ hs' hi' hleast' =>
          have hle := hleast _ hs' hi'.mem
          have hge := hleast' _ hs hi.mem
          rw [Text.encode_lt_encode_iff] at hle hge
          obtain rfl := String.le_antisymm hle hge
          rw [hi.unique hi']

theorem validate_eq_none_iff_meets : validate c candidates = none ↔ Meets c candidates := by
  have hreports := reports_validate c candidates
  constructor
  · intro h
    rw [h] at hreports
    cases hreports with
    | nothing hsound hclean =>
        obtain ⟨hpresent, hincreasing⟩ := unbroken_iff.mp hsound
        exact ⟨hpresent, hincreasing, hclean⟩
  · intro h
    exact hreports.unique (.nothing (unbroken_iff.mpr ⟨h.present, h.increasing⟩) h.clean)

/-- **A validation reports the first violation.**  It reports what is to be reported and nothing
else, and so it passes exactly the lists that meet the case.  In these the expected symbols stand in
their order and do not repeat; and for a list without repeated names this is all that is asked,
apart from the unwanted symbols. -/
theorem validate_reports_first_violation (c : TestCase) (candidates : List Candidate) :
    (∀ v, validate c candidates = v ↔ Reports c candidates v) ∧
    (validate c candidates = none ↔ Meets c candidates) ∧
    (validate c candidates = none →
      c.expected.Nodup ∧ c.expected.Sublist (seen c candidates)) ∧
    ((seen c candidates).Nodup → (validate c candidates = none ↔
      c.expected.Sublist (seen c candidates) ∧ ∀ s ∈ c.unwanted, s ∉ seen c candidates)) := by
  refine ⟨fun v => ?_, validate_eq_none_iff_meets, fun h => ?_, fun hnames => ?_⟩
  · constructor
    · rintro rfl
      exact reports_validate c candidates
    · exact (reports_validate c candidates).unique
  · have hmeets := validate_eq_none_iff_meets.mp h
    exact ⟨nodup_of_increasing hmeets.present hmeets.increasing,
      sublist_of_increasing hmeets.present hmeets.increasing⟩
  · rw [validate_eq_none_iff_meets]
    constructor
    · intro h
      exact ⟨sublist_of_increasing h.present h.increasing, h.clean⟩
    · rintro ⟨hsub, hclean⟩
      exact ⟨fun s hs => exists_firstAt (hsub.subset hs),
        (pairwise_before_of_nodup hnames).sublist hsub, hclean⟩

end Whole

/-- The symbols `a` and `b` stand in this list in their order, but `b` first stands before `a`. -/
example : validate ⟨"f.ts", "x. // a; b", "x. ", 1, 0, .typeScript, 2, ["a", "b"], .empty⟩
    [⟨"b", none⟩, ⟨"a", none⟩, ⟨"b", none⟩] = some (.outOfOrder "b" 0 "a" 1) := by
  decide

end CompletionCheck.Validation
