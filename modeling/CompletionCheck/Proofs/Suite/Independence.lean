import CompletionCheck.Service.Scripted
import CompletionCheck.Suite.Run

/-!
# Checks do not depend on each other

A service holds one configuration at a time, and all cases of a suite are run on it.  So what one
case leaves behind is what the next one finds: a text, settings, a record, a number of answers.  An
outcome that came of any of it would change with the order of the checks, with a filter, or with a
second run.

A scripted service shows that the run itself lets none of it through.  When the answers of its
script depend on nothing but the configured text and the question (`Script.IsPure`), a case
overwrites all that its question can see: the text is configured anew, and the rest is not looked
at.  So the outcome of a check is that of the check alone on a fresh service (`alone`), whatever
state the run finds the service in, and everything else follows from the form of a run.
-/

namespace CompletionCheck

namespace Service

open Fixture (TestCase)

/-! ## Scripts that look at nothing else -/

/-- The answers of a script depend on nothing but the configured text and the question. -/
def Script.IsPure (script : Script) : Prop :=
  ∀ i j text q, script.answer i text q = script.answer j text q

theorem isPure_always (reply : Reply) : (Script.always reply).IsPure :=
  fun _ _ _ _ => rfl

theorem isPure_bySuffix (rows : List (String × Reply)) : (Script.bySuffix rows).IsPure :=
  fun _ _ _ _ => rfl

namespace ScriptState

/-- A service is connected and follows a script.  What it has been asked so far is open. -/
structure Follows (script : Script) (s : ScriptState) : Prop where
  script : s.script = script
  connected : s.connected = true

/-- The states that a fresh service with a script can come to while it is connected. -/
inductive Reachable (script : Script) : ScriptState → Prop
  | start : Reachable script (.start script)
  | configure {s : ScriptState} (o : Options) :
      Reachable script s → Reachable script (scripted.configure o s).2
  | prepare {s : ScriptState} : Reachable script s → Reachable script (scripted.prepare s).2
  | complete {s : ScriptState} (q : Request) :
      Reachable script s → Reachable script (scripted.complete q s).2

def served (s : ScriptState) (c : TestCase) (settings : Json) : ScriptState :=
  { s with
    calls := s.calls ++ [.configure c.dialect.fileName c.text, .prepare,
      .complete c.dialect.fileName c.cursor]
    text := some c.text
    settings := some settings
    answered := s.answered + 1 }

variable {script : Script} {s : ScriptState}

theorem follows_start (script : Script) : (start script).Follows script :=
  ⟨rfl, rfl⟩

theorem Follows.served (h : s.Follows script) (c : TestCase) (settings : Json) :
    (s.served c settings).Follows script :=
  ⟨h.script, h.connected⟩

theorem Reachable.follows (h : s.Reachable script) : s.Follows script := by
  induction h with
  | start => exact follows_start script
  | configure o _ ih => simpa [scripted, whenConnected, ih.connected] using ⟨ih.script, rfl⟩
  | prepare _ ih => simpa [scripted, whenConnected, ih.connected] using ⟨ih.script, rfl⟩
  | @complete s q _ ih =>
      rcases htext : s.text with _ | text
      all_goals
        simpa [scripted, whenConnected, ih.connected, htext] using ⟨ih.script, rfl⟩

end ScriptState

/-- A case that is run on a service with a script is answered about its own text, and whatever text
and settings the service had are gone. -/
theorem runCase_scripted {script : Script} {s : ScriptState} (h : s.Follows script) (c : TestCase)
    (settings : Json) :
    scripted.runCase c settings s
      = (.ok (verdict c (script.answer s.answered c.text (.ofCase c))), s.served c settings) := by
  simp [runCase, scripted, ScriptState.whenConnected, h.connected, h.script, ScriptState.served,
    Options.ofCase, Options.fileName, Request.ofCase]

end Service

namespace Suite

open Service (Script ScriptState scripted)

/-! ## Runs in which every check has its own outcome -/

/-- When the outcome of a check is the same in all states that a run can come to, the run gives each
check this outcome. -/
theorem runChecks_of_steady {σ : Type} {service : Service σ} {settings : Json} {p : σ → Prop}
    {answer : Check → Outcome}
    (h : ∀ check s, p s → (runCheck service settings check s).1 = answer check ∧
      p (runCheck service settings check s).2) (checks : List Check) :
    ∀ s, p s → (runChecks service settings checks s).1 = checks.map (fun c => (c, answer c)) ∧
      p (runChecks service settings checks s).2 := by
  induction checks with
  | nil =>
      intro s hs
      exact ⟨rfl, hs⟩
  | cons check rest ih =>
      intro s hs
      obtain ⟨houtcome, hnext⟩ := h check s hs
      obtain ⟨hresults, hlast⟩ := ih _ hnext
      refine ⟨?_, hlast⟩
      simp only [runChecks, houtcome, hresults]
      rfl

/-! ## Runs on a service with a script -/

/-- The outcome of a check that is run alone on a fresh service with a script. -/
def alone (script : Script) (settings : Json) (check : Check) : Outcome :=
  (runCheck scripted settings check (.start script)).1

variable {script : Script} {s : ScriptState}

theorem runCheck_scripted (hpure : script.IsPure) (settings : Json) (check : Check)
    (hs : s.Follows script) :
    (runCheck scripted settings check s).1 = alone script settings check ∧
      (runCheck scripted settings check s).2.Follows script := by
  unfold alone runCheck
  cases check.kind with
  | broken e => exact ⟨rfl, hs⟩
  | ofCase c =>
      simp only [Service.runCase_scripted hs,
        Service.runCase_scripted (ScriptState.follows_start script)]
      refine ⟨?_, hs.served c settings⟩
      rw [hpure s.answered]

/-- The results that the events of a run tell. -/
def finishedIn (events : List Event) : List (Check × Outcome) :=
  events.filterMap fun
    | .finished check outcome => some (check, outcome)
    | _ => none

theorem finishedIn_events (suite : Suite) (results : List (Check × Outcome)) :
    finishedIn (events suite results) = results := by
  have hresults : (results.map fun r => Event.finished r.1 r.2).filterMap (fun
      | .finished check outcome => some (check, outcome)
      | _ => none) = results := by
    rw [List.filterMap_map]
    exact List.filterMap_some
  rw [finishedIn, events, List.cons_append, List.filterMap_cons, List.filterMap_append, hresults]
  exact List.append_nil results

theorem run_scripted (hpure : script.IsPure) (hs : s.Follows script) (suite : Suite)
    (settings : Json) :
    finishedIn (run suite scripted settings s).1
        = suite.checks.map (fun c => (c, alone script settings c)) ∧
      (run suite scripted settings s).2.Follows script := by
  have hsteady : ∀ check s, s.Follows script →
      (runCheck scripted settings check s).1 = alone script settings check ∧
        (runCheck scripted settings check s).2.Follows script := by
    intro check s hs
    exact runCheck_scripted hpure settings check hs
  obtain ⟨hresults, hlast⟩ := runChecks_of_steady hsteady suite.checks s hs
  refine ⟨?_, hlast⟩
  show finishedIn (events suite (runChecks scripted settings suite.checks s).1) = _
  rw [finishedIn_events, hresults]

/-- **Checks are independent.**  On a connected service whose script looks at nothing but the text
and the question, in whatever state it is, a run gives each check the outcome that it has alone on a
fresh service, and leaves the service in such a state again.  So running once more gives the same
results, running a part of the suite gives the matching part of the results, and no choice of its
checks, in whatever order and however often, gives any of them another outcome. -/
theorem checks_independent (hpure : script.IsPure) (hs : s.Follows script) (suite : Suite)
    (settings : Json) :
    finishedIn (run suite scripted settings s).1
      = suite.checks.map (fun c => (c, alone script settings c)) ∧
    (run suite scripted settings s).2.Follows script ∧
    (∀ text t, t.Follows script →
      finishedIn (run (filter suite text) scripted settings t).1
        = (finishedIn (run suite scripted settings s).1).filter
            fun r => Text.occursIn text.toList r.1.name.toList) ∧
    ∀ checks t, t.Follows script → (∀ c ∈ checks, c ∈ suite.checks) →
      (finishedIn (run { suite with checks } scripted settings t).1).map Prod.fst = checks ∧
      ∀ r ∈ finishedIn (run { suite with checks } scripted settings t).1,
        r ∈ finishedIn (run suite scripted settings s).1 := by
  obtain ⟨hresults, hlast⟩ := run_scripted hpure hs suite settings
  refine ⟨hresults, hlast, ?_, ?_⟩
  · intro text t ht
    obtain ⟨hpart, -⟩ := run_scripted hpure ht (filter suite text) settings
    rw [hpart, hresults, List.filter_map]
    rfl
  · intro checks t ht hsub
    obtain ⟨hchosen, -⟩ := run_scripted hpure ht { suite with checks } settings
    rw [hchosen, hresults]
    constructor
    · simp [Function.comp_def]
    · intro r hr
      obtain ⟨c, hc, rfl⟩ := List.mem_map.mp hr
      exact List.mem_map_of_mem (hsub c hc)

/-- A script that knows two endings. -/
def table : Script :=
  .bySuffix [("a.", .completions [⟨"a.x", none⟩]), ("b.", .failed "no")]

/-- A service that has run other cases with this script. -/
def used : ScriptState :=
  { script := table, calls := [.configure "main.py" "b.", .prepare, .complete "main.py" 2]
    settings := some .null, text := some "b.", answered := 1 }

/-- A check that asks for completions at the end of a text with two bytes. -/
def checkAtEnd (text : String) (d : Dialect) (expected : List String) : Check where
  name := text
  fixture := text
  kind := .ofCase
    { source := text, text, code := text, lineNumber := 1, lineStart := 0, dialect := d
      cursor := 2, expected, unwanted := .empty }

def pair : Suite where
  dir := "."
  scan := {}
  checks := [checkAtEnd "a." .typeScript ["a.x"], checkAtEnd "b." .python []]

/-- On a used service the two checks end as they do alone. -/
theorem checks_independent_used :
    table.IsPure ∧ used.Follows table ∧
      (finishedIn (run pair scripted .null used).1).map Prod.snd
        = [.passed, .failed (.crashed "no")] := by
  have hpure : table.IsPure := Service.isPure_bySuffix _
  have hused : used.Follows table := ⟨rfl, rfl⟩
  obtain ⟨hresults, -, -, -⟩ := checks_independent hpure hused pair .null
  refine ⟨hpure, hused, ?_⟩
  rw [hresults]
  rfl

end Suite

end CompletionCheck
