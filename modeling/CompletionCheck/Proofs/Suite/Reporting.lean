import Mathlib.Data.List.Forall2
import CompletionCheck.Program
import CompletionCheck.Proofs.Suite.Accounting
import CompletionCheck.Proofs.Suite.CheckNames
import CompletionCheck.Proofs.Text.Spans

/-!
# What a run reports

A run is told in four places: on the console, in the list of reports, in the tally and by the exit
code.  None of them is made from another one, so they might part, and a check that failed might end
without a report.  `Agrees` says that they do not part.

There is a gap that this has to get around: a case that is told as broken has no report.  That no
case is told as broken is due to how checks are run, and comes here with `Account.Sound`.  Where a
report points is due to how fixtures are read (`Check.Placed`), which narrowing a suite down to some
names does not change.
-/

namespace CompletionCheck.Suite

open Fixture (TestCase LineError CasePlaced FaultPlaced)
open Text (byteLength Covers)

/-! ## Suites that are found -/

/-- The suite was found in the files, and perhaps narrowed down to the checks with some names. -/
inductive Found (t : Files.Tree) : Suite → Prop
  | discovered {dir : String} {suite : Suite} {notices : List Notice} :
      discover t dir = .ok (suite, notices) → Found t suite
  | filtered {suite : Suite} (text : String) : Found t suite → Found t (suite.filter text)

/-- What a check is about stands where the check says, in its fixture as the files have it. -/
inductive Check.Placed (t : Files.Tree) (check : Check) : Prop
  | ofCase {c : TestCase} {text : String} {d : Dialect} : check.kind = .ofCase c →
      t.readText check.fixture = .ok text → CasePlaced check.fixture text d c → Placed t check
  | fault {e : LineError} {text : String} {d : Dialect} : check.kind = .broken (.line e) →
      t.readText check.fixture = .ok text → FaultPlaced check.fixture text d e → Placed t check
  | unreadable {why : IoKind} : check.kind = .broken (.unreadable check.fixture why) →
      t.readText check.fixture = .error why → Placed t check

variable {t : Files.Tree} {suite : Suite} {check : Check}

theorem placed_of_mem_checksOf {f : FixtureFile} (h : check ∈ checksOf f.path (f.load t)) :
    check.Placed t := by
  unfold FixtureFile.load at h
  cases hread : t.readText f.path with
  | error why =>
      rw [hread] at h
      obtain rfl := List.mem_singleton.mp h
      exact .unreadable rfl hread
  | ok text =>
      rw [hread] at h
      obtain ⟨e, he, rfl⟩ := List.mem_map.mp h
      cases e with
      | ok c => exact .ofCase rfl hread (Fixture.casePlaced_of_mem he)
      | error e => exact .fault rfl hread (Fixture.faultPlaced_of_mem he)

theorem Found.placed (h : Found t suite) : ∀ check ∈ suite.checks, check.Placed t := by
  induction h with
  | @discovered dir suite notices h =>
      intro check hcheck
      unfold discover at h
      split at h
      · cases h
      · cases h
        obtain ⟨loaded, hloaded, hcheck⟩ := List.mem_flatMap.mp hcheck
        obtain ⟨f, -, rfl⟩ := List.mem_map.mp hloaded
        exact placed_of_mem_checksOf hcheck
  | filtered text _ ih =>
      intro check hcheck
      exact ih check (List.mem_filter.mp hcheck).1

/-! ## One report -/

/-- A report is about a check, and what it points at is there. -/
structure Explains (t : Files.Tree) (check : Check) (r : Report) : Prop where
  name : r.name = check.name
  fixture : r.fixture = check.fixture
  /-- The report about a case marks the code of its line, no more and no less. -/
  marks : ∀ c, check.kind = .ofCase c → t.readText check.fixture = .ok r.text ∧
    r.span = some (c.lineStart, byteLength c.code.toList) ∧
    Covers r.text.toList c.lineStart (c.lineStart + byteLength c.code.toList) c.code.toList
  within : ∀ start length, r.span = some (start, length) →
    start + length ≤ byteLength r.text.toList

theorem covers_of_casePlaced {source text : String} {d : Dialect} {c : TestCase}
    (h : CasePlaced source text d c) :
    Covers text.toList c.lineStart (c.lineStart + byteLength c.code.toList) c.code.toList := by
  obtain ⟨before, line, rest, after, hline, hcut, hstart⟩ := h.line
  refine ⟨before, d.marker.toList ++ rest ++ after, ?_, hstart, rfl⟩
  rw [hline.whole, hcut.whole]
  simp only [List.append_assoc]

theorem explains_caseReport {c : TestCase} {text : String} {d : Dialect}
    (hkind : check.kind = .ofCase c) (hread : t.readText check.fixture = .ok text)
    (hplaced : CasePlaced check.fixture text d c) (why : Diagnosis) :
    Explains t check (caseReport check c why) := by
  obtain ⟨hsource, htext, -⟩ := hplaced.origin
  have hcovers := covers_of_casePlaced hplaced
  rw [← htext] at hcovers
  refine ⟨rfl, hsource, fun other hother => ?_, fun start length hspan => ?_⟩
  · obtain rfl := CheckKind.ofCase.inj (hkind.symm.trans hother)
    exact ⟨by rw [hread, ← htext]; rfl, rfl, hcovers⟩
  · cases hspan
    exact hcovers.stop_le

theorem explains_brokenReport {e : FixtureError} (hkind : check.kind = .broken e)
    (hplaced : check.Placed t) : Explains t check (brokenReport t check e) := by
  refine ⟨rfl, rfl, fun c hc => absurd (hkind.symm.trans hc) (by simp),
    fun start length hspan => ?_⟩
  cases hplaced with
  | ofCase hc => exact absurd (hkind.symm.trans hc) (by simp)
  | unreadable hbroken =>
      obtain rfl := CheckKind.broken.inj (hkind.symm.trans hbroken)
      exact absurd hspan (by simp [brokenReport])
  | fault hbroken hread hfault =>
      obtain rfl := CheckKind.broken.inj (hkind.symm.trans hbroken)
      cases hspan
      simp only [brokenReport, hread]
      exact hfault.within

theorem report_of_sound {settings : Json} {a : Account} (h : a.Sound settings)
    (hplaced : a.check.Placed t) (hfailed : a.outcome ≠ .passed) :
    ∃ r, report? t a.check a.outcome = some r ∧ Explains t a.check r := by
  cases h with
  | @broken check e hkind =>
      exact ⟨_, by simp only [report?, hkind], explains_brokenReport hkind hplaced⟩
  | @ofCase check c exchanges result hkind _ =>
      cases hplaced with
      | fault hbroken | unreadable hbroken => exact absurd (hkind.symm.trans hbroken) (by simp)
      | ofCase hkind' hread hcase =>
          obtain rfl := CheckKind.ofCase.inj (hkind.symm.trans hkind')
          match result with
          | .ok .pass => exact absurd rfl hfailed
          | .ok (.fail why) =>
              exact ⟨_, by simp only [Outcome.ofRun, report?, hkind],
                explains_caseReport hkind hread hcase why.diagnosis⟩
          | .error e =>
              exact ⟨_, by simp only [Outcome.ofRun, report?, hkind],
                explains_caseReport hkind hread hcase e.diagnosis⟩

/-! ## All reports -/

theorem report?_passed (t : Files.Tree) (check : Check) : report? t check .passed = none := by
  unfold report?
  rfl

theorem forall₂_reports {settings : Json} {accounts : List Account}
    (hsound : ∀ a ∈ accounts, a.Sound settings) (hplaced : ∀ a ∈ accounts, a.check.Placed t) :
    List.Forall₂ (fun r report => report? t r.1 r.2 = some report ∧ Explains t r.1 report)
      ((told accounts).filter fun r => r.2 ≠ .passed)
      ((told accounts).filterMap fun r => report? t r.1 r.2) := by
  induction accounts with
  | nil => exact .nil
  | cons a rest ih =>
      obtain ⟨ha, hrest⟩ := List.forall_mem_cons.mp hsound
      obtain ⟨hat, hrestt⟩ := List.forall_mem_cons.mp hplaced
      rw [told, List.map_cons]
      by_cases hpassed : a.outcome = .passed
      · have hnone : report? t a.check a.outcome = none := by
          rw [hpassed]
          exact report?_passed t a.check
        rw [List.filter_cons_of_neg (by simpa using hpassed),
          List.filterMap_cons_none (f := fun r : Check × Outcome => report? t r.1 r.2) hnone]
        exact ih hrest hrestt
      · obtain ⟨r, hr, hexplains⟩ := report_of_sound ha hat hpassed
        rw [List.filter_cons_of_pos (by simpa using hpassed),
          List.filterMap_cons_some (f := fun r : Check × Outcome => report? t r.1 r.2) hr]
        exact .cons ⟨hr, hexplains⟩ (ih hrest hrestt)

theorem reports_events (t : Files.Tree) (suite : Suite) (results : List (Check × Outcome)) :
    reports t (events suite results) = results.filterMap fun r => report? t r.1 r.2 := by
  rw [reports, events, List.cons_append, List.filterMap_cons_none rfl, List.filterMap_append,
    List.filterMap_map]
  exact List.append_nil _

theorem finalTally_events (suite : Suite) (results : List (Check × Outcome)) :
    finalTally (events suite results) = tally suite results := by
  rw [finalTally, events, List.foldl_append]
  rfl

/-! ## The tally -/

/-- The number of checks that a tally counts as not passed. -/
def Tally.unsuccessful (t : Tally) : Nat :=
  t.failed + t.errored + t.broken

theorem unsuccessful_tally (suite : Suite) (results : List (Check × Outcome)) :
    (tally suite results).unsuccessful = (results.filter fun r => r.2 ≠ .passed).length := by
  have hrecord (t : Tally) (o : Outcome) : (t.record o).unsuccessful
      = t.unsuccessful + if decide (o ≠ .passed) then 1 else 0 := by
    cases o <;> simp [Tally.record, Tally.unsuccessful] <;> omega
  rw [tally, foldl_record (p := fun o => decide (o ≠ .passed)) hrecord, ← List.countP_eq_length_filter]
  exact Nat.zero_add _

theorem isSuccess_iff_unsuccessful (t : Tally) : t.isSuccess = true ↔ t.unsuccessful = 0 := by
  simp only [Tally.isSuccess, Tally.unsuccessful, Bool.and_eq_true, beq_iff_eq]
  omega

/-! ## The run -/

/-- What the console shows before the summary: a header, and an entry for each result. -/
def opening (suite : Suite) (results : List (Check × Outcome)) : String :=
  "running " ++ toString results.length ++ " checks from " ++ suite.dir ++ "\n" ++
    (if suite.scan.isolated then "note: an ONLY fixture is restricting this run\n" else "") ++
    String.join (results.map fun r => r.1.name ++ " ... " ++ r.2.label ++ "\n")

/-- The summary of a run: whether all is well, and how many checks ended in which way. -/
def summary (ok : Bool) (counted : Outcome.Kind → Nat) (skipped : Nat) : String :=
  "test result: " ++ (if ok then "ok" else "FAILED") ++ ". " ++
    toString (counted .passed) ++ " passed; " ++ toString (counted .failed) ++ " failed; " ++
    toString (counted .errored) ++ " errored; " ++ toString (counted .broken) ++ " broken; " ++
    toString skipped ++ " skipped"

def countOf (results : List (Check × Outcome)) (k : Outcome.Kind) : Nat :=
  results.countP fun r => r.2.kind = k

/-- Everything that is told of a run says the same: the events tell one result for each check of the
suite, and the console, the reports and the tally tell these results. -/
structure Agrees (t : Files.Tree) (suite : Suite) (results : List (Check × Outcome))
    (events : List Event) : Prop where
  checks : results.map Prod.fst = suite.checks
  told : events = .started suite :: results.map (fun r => .finished r.1 r.2)
    ++ [.ended (finalTally events)]
  /-- The summary is good exactly if there is no report. -/
  console : console events = opening suite results ++
    ("\n" ++ summary (reports t events).isEmpty (countOf results) suite.scan.skipped.length ++ "\n")
  /-- There is one report for each check that did not pass, in their order. -/
  reports : List.Forall₂ (fun r report => report? t r.1 r.2 = some report ∧ Explains t r.1 report)
    (results.filter fun r => r.2 ≠ .passed) (reports t events)
  count : (Suite.reports t events).length
    = (finalTally events).failed + (finalTally events).errored + (finalTally events).broken
  success : (finalTally events).isSuccess = true ↔ Suite.reports t events = []

section Run

variable {σ : Type} {settings : Json} {accounts : List Account}
  {results : List (Check × Outcome)}

theorem console_events (h : suite.checks.length = results.length) :
    console (events suite results)
      = opening suite results ++ ("\n" ++ (tally suite results).line ++ "\n") := by
  have hentries : (Event.console ∘ fun r : Check × Outcome => .finished r.1 r.2)
      = fun r => r.1.name ++ " ... " ++ r.2.label ++ "\n" := rfl
  rw [console, events, List.map_append, List.map_cons, List.map_map, List.map_singleton, hentries,
    String.join_append, String.join_cons, String.join_cons, String.join_nil, String.append_empty]
  unfold opening Event.console
  simp only [h, String.append_assoc]

theorem line_eq_summary (t : Tally) : t.line = summary t.isSuccess t.count t.skipped := by
  unfold Tally.line summary
  rfl

theorem line_tally (h : accounts.map Account.check = suite.checks) :
    (tally suite (told accounts)).line = summary (tally suite (told accounts)).isSuccess
      (countOf (told accounts)) suite.scan.skipped.length := by
  have hsettles := settles_tally h
  have hcount : (tally suite (told accounts)).count = countOf (told accounts) := by
    funext k
    rw [hsettles.count, countOf, told, List.countP_map]
    rfl
  rw [line_eq_summary, hcount, hsettles.skipped]

/-- Sound accounts of a suite whose checks are in their places are told in agreement. -/
theorem agrees_told (h : accounts.map Account.check = suite.checks)
    (hsound : ∀ a ∈ accounts, a.Sound settings) (hplaced : ∀ a ∈ accounts, a.check.Placed t) :
    Agrees t suite (told accounts) (events suite (told accounts)) := by
  have hreports := forall₂_reports hsound hplaced
  rw [← reports_events t suite] at hreports
  have hcount : (reports t (events suite (told accounts))).length
      = (tally suite (told accounts)).unsuccessful := by
    rw [unsuccessful_tally, hreports.length_eq]
  have hsuccess : (tally suite (told accounts)).isSuccess = true ↔
      reports t (events suite (told accounts)) = [] := by
    rw [isSuccess_iff_unsuccessful, ← hcount, List.length_eq_zero_iff]
  have hok : (reports t (events suite (told accounts))).isEmpty
      = (tally suite (told accounts)).isSuccess := by
    rw [Bool.eq_iff_iff, List.isEmpty_iff, hsuccess]
  have hlength : suite.checks.length = (told accounts).length := by
    rw [← h, told, List.length_map, List.length_map]
  refine ⟨?_, ?_, ?_, hreports, ?_, ?_⟩
  · rw [← h, told, List.map_map]
    rfl
  · rw [finalTally_events]
    rfl
  · rw [console_events hlength, line_tally h, hok]
  · rw [hcount, finalTally_events]
    rfl
  · rw [finalTally_events, hsuccess]

theorem exists_told (suite : Suite) (service : Service σ) (settings : Json) (s : σ) :
    ∃ accounts, accounts.map Account.check = suite.checks ∧ (∀ a ∈ accounts, a.Sound settings) ∧
      (run suite service settings s).1 = events suite (told accounts) := by
  obtain ⟨accounts, hchecks, hsound, hresults, -⟩ :=
    runChecks_recorded service settings suite.checks s []
  refine ⟨accounts, hchecks, hsound, ?_⟩
  rw [← hresults]
  rfl

theorem Found.agrees (h : Found t suite) (service : Service σ) (settings : Json) (s : σ) :
    ∃ results, Agrees t suite results (run suite service settings s).1 := by
  obtain ⟨accounts, hchecks, hsound, hrun⟩ := exists_told suite service settings s
  refine ⟨told accounts, ?_⟩
  rw [hrun]
  refine agrees_told hchecks hsound fun a ha => h.placed a.check ?_
  rw [← hchecks]
  exact List.mem_map_of_mem ha

end Run

end CompletionCheck.Suite

namespace CompletionCheck

open Suite (Found Agrees)

theorem Program.discover_of_dir {w : Program.Surroundings} {c : CommandLine.Common}
    {loaded : Program.Loaded} {dir : String} {found : Suite × List Notice}
    (hdir : Program.casesDir? c loaded = some dir)
    (h : Suite.discover w.files dir = .ok found) : Program.discover w c loaded = .ok found := by
  simp only [Program.discover, hdir, h]

theorem Program.found_of_discover {w : Program.Surroundings} {c : CommandLine.Common}
    {loaded : Program.Loaded} {suite : Suite} {notices : List Notice}
    (h : Program.discover w c loaded = .ok (suite, notices)) : Found w.files suite := by
  unfold Program.discover at h
  split at h
  · cases h
  · split at h
    · cases h
    · next hdiscover =>
        cases h
        exact .discovered hdiscover

/-- What is printed and reported by a command that could be carried out is what a run of a suite that
was found tells, and it ends in success if the tally does. -/
theorem Program.run_cases {w : Program.Surroundings} {c : CommandLine.Common}
    {server filter : Option String} {f : Program.Finished}
    (h : Program.run w c server filter = .ok f) :
    ∃ suite settings r events, Found w.files suite ∧
      events = (suite.run Lsp.Rehearsal.service settings r).1 ∧
      f.output = Suite.console events ∧ f.reports = Suite.reports w.files events ∧
      f.success = (Suite.finalTally events).isSuccess := by
  simp only [Program.run, bind, Except.bind] at h
  split at h
  · cases h
  · next loaded hload =>
      split at h
      · cases h
      · next found hfound =>
          obtain ⟨suite, notices⟩ := found
          have hsuite := Program.found_of_discover hfound
          split at h
          · cases h
          · split at h
            · cases h
            · next rehearsal _ =>
                cases h
                refine ⟨_, loaded.config.settings, rehearsal, _, ?_, rfl, rfl, rfl, rfl⟩
                cases filter with
                | none => exact hsuite
                | some text => exact hsuite.filtered text

theorem Program.exists_run {w : Program.Surroundings} {c : CommandLine.Common}
    {server : Option String} {loaded : Program.Loaded} {found : Suite × List Notice}
    {command : String × List String} {r : Lsp.Rehearsal} (filter : Option String)
    (hload : Program.load w c.config = .ok loaded)
    (hfound : Program.discover w c loaded = .ok found)
    (hcommand : Program.serverCommand server loaded.config = .ok command)
    (hstart : Program.start w command loaded = .ok r) :
    ∃ f, Program.run w c server filter = .ok f := by
  simp only [Program.run, hload, hfound, hcommand, hstart, bind, Except.bind]
  exact ⟨_, rfl⟩

end CompletionCheck

namespace CompletionCheck.Suite

/-- **What is reported agrees with the outcomes.**  However a suite was found and narrowed down, and
whatever the service does in its run, the events, the console, the reports and the tally say the
same of it, and every report about a case marks the code of its line in the text of its fixture.
A command that runs a suite prints and reports just this, and its exit code is zero if and only if
nothing is reported. -/
theorem reporting_agrees :
    (∀ (t : Files.Tree) (suite : Suite), Found t suite →
      ∀ (σ : Type) (service : Service σ) (settings : Json) (s : σ),
        ∃ results, Agrees t suite results (run suite service settings s).1) ∧
    ∀ (w : Program.Surroundings) (c : CommandLine.Common) (server filter : Option String)
      (f : Program.Finished), Program.run w c server filter = .ok f →
        ∃ suite settings r results events, Found w.files suite ∧
          events = (run suite Lsp.Rehearsal.service settings r).1 ∧
          Agrees w.files suite results events ∧
          f.output = console events ∧ f.reports = reports w.files events ∧
          (f.exitCode = 0 ↔ f.reports = []) := by
  refine ⟨fun t suite h σ service settings s => h.agrees service settings s, ?_⟩
  intro w c server filter f h
  obtain ⟨suite, settings, r, events, hfound, hevents, houtput, hreports, hsuccess⟩ :=
    Program.run_cases h
  obtain ⟨results, hagrees⟩ := hfound.agrees Lsp.Rehearsal.service settings r
  rw [← hevents] at hagrees
  refine ⟨suite, settings, r, results, events, hfound, hevents, hagrees, houtput, hreports, ?_⟩
  rw [hreports, ← hagrees.success, ← hsuccess, Program.Finished.exitCode]
  cases f.success <;> simp

def idleService : Service Unit where
  configure _ s := (.ok (), s)
  prepare s := (.ok (), s)
  complete _ s := (.ok (.completions []), s)

/-- Surroundings with the tree of fixtures, in which every server starts and offers nothing. -/
def colonSurroundings : Program.Surroundings where
  files := colonTree
  cwd := "/"
  launch _ _ := .ok {}

theorem load_colonSurroundings : Program.load colonSurroundings none = .ok ⟨{}, "/"⟩ := by
  have hwalk : colonTree.walk false Files.maxLinks [] [[], Text.encode "harness.toml".toList]
      = .error .notFound := by
    rw [Files.Tree.walk_idle _ rfl rfl]
    exact Files.Tree.walk_missing rfl (by decide) rfl
  have hresolve : colonTree.resolve (Files.Tree.pathBytes "/harness.toml") = .error .notFound :=
    hwalk
  have hfind : Config.find? colonTree "/" = none := by
    have hplaces : Config.placesFor "/" = ["/harness.toml"] := by decide +kernel
    rw [Config.find?, hplaces, List.find?_singleton, Files.Tree.isFile, hresolve]
    rfl
  have hfound : Config.find? colonSurroundings.files colonSurroundings.cwd = none := hfind
  rw [Program.load, hfound]
  rfl

/-- All kinds of checks are among those of the tree. -/
theorem reporting_agrees_colons :
    ∃ suite notices, discover colonTree "." = .ok (suite, notices) ∧
      suite.checks.map Check.name = ["load ./4.py", "get completions ./a.ts:0",
        "get completions ./a.ts:5", "annotation ./a.ts:3", "get completions ./a.ts:0.ts:0"] ∧
      (∃ results, Agrees colonTree (suite.filter "a.ts:") results
        (run (suite.filter "a.ts:") idleService .null ()).1) ∧
      ∃ f, Program.run colonSurroundings { casesDir := some "." } (some "server") none = .ok f ∧
        (f.exitCode = 0 ↔ f.reports = []) := by
  have hlist : colonTree.list "." = .ok colonListing := Files.Tree.list_ofRoot colonListing
  obtain ⟨suite, notices, hsuite, hnames⟩ := names_discover hlist
  rw [candidateNames_colonListing, subjects_colonTree] at hnames
  have hfound : Found colonTree (suite.filter "a.ts:") := .filtered _ (.discovered hsuite)
  have hdiscover : Program.discover colonSurroundings { casesDir := some "." } ⟨{}, "/"⟩
      = .ok (suite, notices) := Program.discover_of_dir rfl hsuite
  have hserver : Program.serverCommand (some "server") {} = .ok ("server", []) := by rfl
  have hstarts : (Program.start colonSurroundings ("server", []) ⟨{}, "/"⟩).toOption.isSome := by
    decide +kernel
  obtain ⟨r, hstart⟩ : ∃ r, Program.start colonSurroundings ("server", []) ⟨{}, "/"⟩ = .ok r := by
    cases h : Program.start colonSurroundings ("server", []) ⟨{}, "/"⟩ with
    | error e => rw [h] at hstarts; exact absurd hstarts (by simp [Except.toOption])
    | ok r => exact ⟨r, rfl⟩
  obtain ⟨f, hrun⟩ := Program.exists_run none load_colonSurroundings hdiscover hserver hstart
  obtain ⟨_, _, _, _, _, -, -, -, -, -, hexit⟩ := reporting_agrees.2 _ _ _ _ f hrun
  exact ⟨suite, notices, hsuite, hnames.trans (by decide +kernel),
    reporting_agrees.1 _ _ hfound Unit idleService .null (), f, hrun, hexit⟩

end CompletionCheck.Suite
