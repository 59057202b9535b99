import CompletionCheck.Suite.Report

/-!
# What a run accounts for

A run is right to be trusted with a green result when every check of the suite is in it once, under
its own outcome, and when this outcome comes of questions about this check and no other.  The first
is a matter of what the run tells, the second of what the service is asked.

To speak of the second, `Service.recorded` makes of any service one that also keeps the exchanges it
has had, each call with what was given back.  It answers as the service does, so a run of it tells
the same (`runChecks_recorded`), and its record falls into pieces, one for each check: nothing for a
broken one, and for a case the calls up to the first that fails (`Attempt`).  The outcome of a check
is read off its own piece.

There is no assumption about the service.  Its state goes from call to call, so it may remember,
fail now and then, or never recover.
-/

namespace CompletionCheck

variable {σ : Type}

namespace Service

open Fixture (TestCase)

/-- A call of a service, with what it gave. -/
inductive Exchange
  | configure (o : Options) (given : Except ServiceError Unit)
  | prepare (given : Except ServiceError Unit)
  | complete (q : Request) (given : Except ServiceError Reply)

/-- A service that keeps a record of its exchanges. -/
def recorded (service : Service σ) : Service (σ × List Exchange) where
  configure o := fun (s, record) =>
    let (given, t) := service.configure o s
    (given, t, record ++ [.configure o given])
  prepare := fun (s, record) =>
    let (given, t) := service.prepare s
    (given, t, record ++ [.prepare given])
  complete q := fun (s, record) =>
    let (given, t) := service.complete q s
    (given, t, record ++ [.complete q given])

theorem recorded_configure (service : Service σ) (o : Options) (s : σ) (record : List Exchange) :
    service.recorded.configure o (s, record) = ((service.configure o s).1,
      (service.configure o s).2, record ++ [.configure o (service.configure o s).1]) := rfl

theorem recorded_prepare (service : Service σ) (s : σ) (record : List Exchange) :
    service.recorded.prepare (s, record) = ((service.prepare s).1,
      (service.prepare s).2, record ++ [.prepare (service.prepare s).1]) := rfl

theorem recorded_complete (service : Service σ) (q : Request) (s : σ) (record : List Exchange) :
    service.recorded.complete q (s, record) = ((service.complete q s).1,
      (service.complete q s).2, record ++ [.complete q (service.complete q s).1]) := rfl

/-- `Attempt c settings exchanges result`: in these exchanges a case is run with the given settings,
and this comes of it.  The case is configured and asked about with its own text, under the name of
its dialect's file, at its own cursor. -/
inductive Attempt (c : TestCase) (settings : Json) :
    List Exchange → Except ServiceError Verdict → Prop
  | unconfigured (e : ServiceError) :
      Attempt c settings
        [.configure ⟨some c.text, c.dialect, settings⟩ (.error e)] (.error e)
  | unprepared (e : ServiceError) :
      Attempt c settings
        [.configure ⟨some c.text, c.dialect, settings⟩ (.ok ()), .prepare (.error e)] (.error e)
  | unanswered (e : ServiceError) :
      Attempt c settings
        [.configure ⟨some c.text, c.dialect, settings⟩ (.ok ()), .prepare (.ok ()),
          .complete ⟨c.dialect.fileName, c.cursor, c.cursor, c.cursor, c.text⟩ (.error e)]
        (.error e)
  | answered (reply : Reply) :
      Attempt c settings
        [.configure ⟨some c.text, c.dialect, settings⟩ (.ok ()), .prepare (.ok ()),
          .complete ⟨c.dialect.fileName, c.cursor, c.cursor, c.cursor, c.text⟩ (.ok reply)]
        (.ok (verdict c reply))

theorem runCase_recorded (service : Service σ) (c : TestCase) (settings : Json) (s : σ)
    (record : List Exchange) :
    ∃ exchanges, Attempt c settings exchanges (service.runCase c settings s).1 ∧
      service.recorded.runCase c settings (s, record)
        = ((service.runCase c settings s).1, (service.runCase c settings s).2,
            record ++ exchanges) := by
  simp only [runCase, recorded_configure]
  rcases service.configure (.ofCase c settings) s with ⟨e | _, s₁⟩
  · exact ⟨_, .unconfigured e, rfl⟩
  · simp only [recorded_prepare]
    rcases service.prepare s₁ with ⟨e | _, s₂⟩
    · exact ⟨_, .unprepared e, by simp [Options.ofCase]⟩
    · simp only [recorded_complete]
      rcases service.complete (.ofCase c) s₂ with ⟨e | reply, s₃⟩
      · refine ⟨_, .unanswered e, ?_⟩
        simp [Options.ofCase, Request.ofCase, TestCase.wordStart, TestCase.wordEnd]
      · refine ⟨_, .answered reply, ?_⟩
        simp [Options.ofCase, Request.ofCase, TestCase.wordStart, TestCase.wordEnd]

end Service

namespace Suite

open Service (Exchange Attempt)

/-! ## One check -/

/-- What a run has to show for a check: its outcome, and the exchanges that it caused. -/
structure Account where
  check : Check
  outcome : Outcome
  exchanges : List Exchange

/-- What may be told of a check: a broken one causes no exchange, and the outcome of a case is that
of an attempt at it. -/
inductive Account.Sound (settings : Json) : Account → Prop
  | broken {check : Check} {e : FixtureError} : check.kind = .broken e →
      Sound settings ⟨check, .broken, []⟩
  | ofCase {check : Check} {c : Fixture.TestCase} {exchanges : List Exchange}
      {result : Except ServiceError Service.Verdict} : check.kind = .ofCase c →
      Attempt c settings exchanges result → Sound settings ⟨check, .ofRun result, exchanges⟩

theorem runCheck_recorded (service : Service σ) (settings : Json) (check : Check) (s : σ)
    (record : List Exchange) :
    ∃ exchanges,
      Account.Sound settings ⟨check, (runCheck service settings check s).1, exchanges⟩ ∧
      runCheck service.recorded settings check (s, record)
        = ((runCheck service settings check s).1, (runCheck service settings check s).2,
            record ++ exchanges) := by
  unfold runCheck
  cases hkind : check.kind with
  | broken e => exact ⟨[], .broken hkind, by rw [List.append_nil]⟩
  | ofCase c =>
      obtain ⟨exchanges, hattempt, hrun⟩ := service.runCase_recorded c settings s record
      refine ⟨exchanges, .ofCase hkind hattempt, ?_⟩
      simp only [hrun]

/-! ## All checks -/

def told (accounts : List Account) : List (Check × Outcome) :=
  accounts.map fun a => (a.check, a.outcome)

theorem runChecks_recorded (service : Service σ) (settings : Json) (checks : List Check) :
    ∀ (s : σ) (record : List Exchange),
      ∃ accounts : List Account, accounts.map Account.check = checks ∧
        (∀ a ∈ accounts, a.Sound settings) ∧
        (runChecks service settings checks s).1 = told accounts ∧
        runChecks service.recorded settings checks (s, record)
          = (told accounts, (runChecks service settings checks s).2,
              record ++ accounts.flatMap Account.exchanges) := by
  induction checks with
  | nil =>
      intro s record
      refine ⟨[], rfl, ?_, rfl, ?_⟩
      · intro a ha
        exact absurd ha List.not_mem_nil
      · show ([], s, record) = ([], s, record ++ [])
        rw [List.append_nil]
  | cons check rest ih =>
      intro s record
      obtain ⟨exchanges, hsound, hrun⟩ := runCheck_recorded service settings check s record
      obtain ⟨accounts, hchecks, hall, hresults, hrest⟩ :=
        ih (runCheck service settings check s).2 (record ++ exchanges)
      refine ⟨⟨check, (runCheck service settings check s).1, exchanges⟩ :: accounts, ?_, ?_, ?_, ?_⟩
      · rw [List.map_cons, hchecks]
      · exact List.forall_mem_cons.mpr ⟨hsound, hall⟩
      · simp only [runChecks, hresults]
        rfl
      · simp only [runChecks, hrun, hrest, List.flatMap_cons, List.append_assoc]
        rfl

/-! ## The tally -/

/-- The four ways in which a check ends. -/
inductive Outcome.Kind
  | passed
  | failed
  | errored
  | broken
deriving DecidableEq

def Outcome.kind : Outcome → Outcome.Kind
  | .passed => .passed
  | .failed _ => .failed
  | .errored _ => .errored
  | .broken => .broken

theorem kind_eq_passed_iff {o : Outcome} : o.kind = .passed ↔ o = .passed := by
  cases o <;> simp [Outcome.kind]

/-- How many checks a tally says have ended in some way. -/
def Tally.count (t : Tally) : Outcome.Kind → Nat
  | .passed => t.passed
  | .failed => t.failed
  | .errored => t.errored
  | .broken => t.broken

theorem count_record (k : Outcome.Kind) (t : Tally) (o : Outcome) :
    (t.record o).count k = t.count k + if decide (o.kind = k) then 1 else 0 := by
  cases o <;> cases k <;> rfl

theorem total_record (t : Tally) (o : Outcome) : (t.record o).total = t.total + 1 := by
  cases o <;> simp only [Tally.record, Tally.total] <;> omega

/-- A number of a tally that goes up by one with certain outcomes, and stays with the others, counts
these outcomes. -/
theorem foldl_record {f : Tally → Nat} {p : Outcome → Bool}
    (h : ∀ t o, f (t.record o) = f t + if p o then 1 else 0) (results : List (Check × Outcome)) :
    ∀ t : Tally, f (results.foldl (fun t r => t.record r.2) t)
      = f t + results.countP fun r => p r.2 := by
  induction results with
  | nil => intro t; rfl
  | cons r rest ih =>
      intro t
      rw [List.foldl_cons, ih, h, List.countP_cons]
      omega

theorem isSuccess_iff (t : Tally) : t.isSuccess = true ↔ ∀ k, k ≠ .passed → t.count k = 0 := by
  constructor
  · intro h k hk
    simp only [Tally.isSuccess, Bool.and_eq_true, beq_iff_eq] at h
    obtain ⟨⟨hfailed, herrored⟩, hbroken⟩ := h
    cases k with
    | passed => exact absurd rfl hk
    | failed => exact hfailed
    | errored => exact herrored
    | broken => exact hbroken
  · intro h
    have hfailed : t.failed = 0 := h .failed (by simp)
    have herrored : t.errored = 0 := h .errored (by simp)
    have hbroken : t.broken = 0 := h .broken (by simp)
    simp [Tally.isSuccess, hfailed, herrored, hbroken]

/-- `Settles suite accounts t`: a tally says of a suite what its accounts say. -/
structure Settles (suite : Suite) (accounts : List Account) (t : Tally) : Prop where
  count : ∀ k, t.count k = accounts.countP fun a => a.outcome.kind = k
  total : t.total = suite.checks.length
  skipped : t.skipped = suite.scan.skipped.length
  isSuccess : t.isSuccess = true ↔ ∀ a ∈ accounts, a.outcome = .passed

theorem settles_tally {suite : Suite} {accounts : List Account}
    (h : accounts.map Account.check = suite.checks) :
    Settles suite accounts (tally suite (told accounts)) := by
  have hcount (k : Outcome.Kind) : (tally suite (told accounts)).count k
      = accounts.countP fun a => a.outcome.kind = k := by
    have hfold := foldl_record (f := fun t => t.count k) (p := fun o => o.kind = k)
      (count_record k) (told accounts) { skipped := suite.scan.skipped.length }
    rw [told, List.countP_map] at hfold
    rw [tally, told, hfold]
    cases k <;> exact Nat.zero_add _
  refine ⟨hcount, ?_, ?_, ?_⟩
  · rw [tally, foldl_record (f := Tally.total) (p := fun _ => true) total_record, ← h]
    simp [told, Tally.total]
  · have hskipped (t : Tally) (o : Outcome) : (t.record o).skipped
        = t.skipped + if (fun _ => false) o then 1 else 0 := by
      cases o <;> rfl
    rw [tally, foldl_record hskipped]
    simp
  · rw [isSuccess_iff]
    simp only [hcount, List.countP_eq_zero, decide_eq_true_eq]
    constructor
    · intro hnone a ha
      refine kind_eq_passed_iff.mp (Classical.byContradiction ?_)
      intro hkind
      exact hnone a.outcome.kind hkind a ha rfl
    · intro hall k hk a ha hkind
      rw [hall a ha] at hkind
      exact hk hkind.symm

/-! ## The run -/

/-- **A run accounts for every check once.**  For any suite, and any service in any state, there is
one sound account for each check, in their order.  The run tells the start, each account, and the
end with a tally that says what the accounts say.  And what the service has seen is what stands in
the accounts, in this order, whether it is recorded or not. -/
theorem run_accounts (suite : Suite) (service : Service σ) (settings : Json) (s : σ) :
    ∃ (accounts : List Account) (t : Tally),
      accounts.map Account.check = suite.checks ∧
      (∀ a ∈ accounts, a.Sound settings) ∧
      (run suite service settings s).1
        = .started suite :: accounts.map (fun a => .finished a.check a.outcome) ++ [.ended t] ∧
      finalTally (run suite service settings s).1 = t ∧
      Settles suite accounts t ∧
      run suite service.recorded settings (s, [])
        = ((run suite service settings s).1, (run suite service settings s).2,
            accounts.flatMap Account.exchanges) := by
  obtain ⟨accounts, hchecks, hsound, hresults, hrecorded⟩ :=
    runChecks_recorded service settings suite.checks s []
  have hevents : (run suite service settings s).1 = .started suite
      :: accounts.map (fun a => .finished a.check a.outcome)
        ++ [.ended (tally suite (told accounts))] := by
    simp only [run, hresults, events, told, List.map_map]
    rfl
  refine ⟨accounts, tally suite (told accounts), hchecks, hsound, hevents, ?_,
    settles_tally hchecks, ?_⟩
  · rw [hevents, finalTally, List.foldl_append]
    rfl
  · simp only [run, hrecorded, hresults, List.nil_append]

end Suite

end CompletionCheck
