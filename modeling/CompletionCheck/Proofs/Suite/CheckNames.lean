import CompletionCheck.Proofs.Fixture.Extraction
import CompletionCheck.Proofs.Json.Numerals
import CompletionCheck.Proofs.Suite.Scanning
import CompletionCheck.Suite.Basic

/-!
# A name stands for one check

Checks are chosen and reported by their names, so two checks of a suite must not share one.  A name
tells of its check a kind, the path of the fixture and, unless the fixture could not be read, one
number: the cursor of a case or the line of a fault (`Subject`).  Two things follow from there.

The name tells these apart from each other (`Subject.name_inj`).  A path may hold colons and digits,
but a number has no colon in it, so the last colon of a name ends the path.  And the three kinds begin
with different letters.

The checks of a suite differ in them.  Fixtures of one directory have different paths, and the entries
of a fixture have lines, and as far as they are cases cursors, that increase.  For cases without any
code, whose cursor falls back to the start of the line, this is because a line begins behind the
line feed of the one before it.
-/

namespace CompletionCheck.Suite

open Files (FileName Node)
open Fixture (Entry)

/-! ## What a name tells -/

/-- What a check is about, as far as its name tells. -/
inductive Subject
  | case (path : String) (cursor : Nat)
  | fault (path : String) (line : Nat)
  | fixture (path : String)
deriving DecidableEq

namespace Subject

def name : Subject → String
  | case path cursor => "get completions " ++ path ++ ":" ++ toString cursor
  | fault path line => "annotation " ++ path ++ ":" ++ toString line
  | fixture path => "load " ++ path

def path : Subject → String
  | case path _ => path
  | fault path _ => path
  | fixture path => path

theorem colon_not_mem_number (n : Nat) : ':' ∉ (toString n).toList := by
  rw [Json.toList_toString_nat]
  intro h
  exact absurd (Json.isDigit_of_mem_digits h) (by decide)

/-- The last colon of a text that ends in a number ends what stands before the number. -/
theorem numbered_inj {p q : String} {m n : Nat}
    (h : p ++ ":" ++ toString m = q ++ ":" ++ toString n) : p = q ∧ m = n := by
  have reversed (s : String) (k : Nat) : (s ++ ":" ++ toString k).toList.reverse
      = (toString k).toList.reverse ++ ':' :: s.toList.reverse := by
    simp
  have cut (s : String) (k : Nat) : Text.cutAt? [':'] (s ++ ":" ++ toString k).toList.reverse
      = some ((toString k).toList.reverse, s.toList.reverse) := by
    rw [reversed]
    exact Text.cutAt?_singleton (fun hmem => colon_not_mem_number k (List.mem_reverse.mp hmem)) _
  have hcut := cut p m
  rw [h, cut q n] at hcut
  obtain ⟨hnumber, hpath⟩ := Prod.mk.inj (Option.some.inj hcut)
  refine ⟨String.toList_inj.mp (List.reverse_injective hpath).symm, ?_⟩
  have hvalue := congrArg (fun digits => Nat.ofDigitChars 10 digits 0)
    (List.reverse_injective hnumber)
  simpa only [Json.toList_toString_nat, Nat.ofDigitChars_ten_toDigits] using hvalue.symm

theorem head?_append {s : String} {c : Char} (h : s.toList.head? = some c) (t : String) :
    (s ++ t).toList.head? = some c := by
  rw [String.toList_append, List.head?_append, h]
  rfl

/-- The letter that the names of a kind begin with. -/
def letter : Subject → Char
  | case .. => 'g'
  | fault .. => 'a'
  | fixture .. => 'l'

theorem head?_name (s : Subject) : s.name.toList.head? = some s.letter := by
  cases s with
  | case path cursor =>
      have hword : "get completions ".toList.head? = some 'g' := by decide +kernel
      exact head?_append (head?_append (head?_append hword path) ":") _
  | fault path line =>
      have hword : "annotation ".toList.head? = some 'a' := by decide +kernel
      exact head?_append (head?_append (head?_append hword path) ":") _
  | fixture path =>
      have hword : "load ".toList.head? = some 'l' := by decide +kernel
      exact head?_append hword path

theorem name_inj {a b : Subject} (h : a.name = b.name) : a = b := by
  have hletter : a.letter = b.letter := by
    have hhead := head?_name a
    rw [h, head?_name b] at hhead
    exact (Option.some.inj hhead).symm
  have numbered {word p q : String} {m n : Nat}
      (h : word ++ p ++ ":" ++ toString m = word ++ q ++ ":" ++ toString n) : p = q ∧ m = n := by
    obtain ⟨hpath, hnumber⟩ := numbered_inj h
    exact ⟨(String.append_right_inj word).mp hpath, hnumber⟩
  cases a with
  | case p m =>
      cases b with
      | case q n =>
          obtain ⟨rfl, rfl⟩ := numbered h
          rfl
      | fault | fixture => exact absurd hletter (by simp [letter])
  | fault p m =>
      cases b with
      | fault q n =>
          obtain ⟨rfl, rfl⟩ := numbered h
          rfl
      | case | fixture => exact absurd hletter (by simp [letter])
  | fixture p =>
      cases b with
      | fixture q => rw [(String.append_right_inj "load ").mp h]
      | case | fault => exact absurd hletter (by simp [letter])

end Subject

/-! ## The names of the checks of a fixture -/

def subjectOf (path : String) : Entry → Subject
  | .ok c => .case path c.cursor
  | .error e => .fault path e.line

def subjectsOf (t : Files.Tree) (f : FixtureFile) : List Subject :=
  match f.load t with
  | .ok entries => entries.map (subjectOf f.path)
  | .error _ => [.fixture f.path]

section Fixtures

variable {t : Files.Tree} {f : FixtureFile}

theorem name_of_source {c : Fixture.TestCase} {path : String} (h : c.source = path) :
    c.name = (Subject.case path c.cursor).name := by
  subst h
  unfold Fixture.TestCase.name Subject.name
  dsimp only

theorem names_checksOf :
    (checksOf f.path (f.load t)).map Check.name = (subjectsOf t f).map Subject.name := by
  unfold subjectsOf FixtureFile.load
  cases t.readText f.path with
  | error why => rfl
  | ok text =>
      simp only [checksOf, List.map_map]
      refine List.map_congr_left fun e he => ?_
      cases e with
      | error e => rfl
      | ok c =>
          exact name_of_source (Fixture.casePlaced_of_mem he).origin.1

theorem path_of_mem_subjectsOf {s : Subject} (h : s ∈ subjectsOf t f) : s.path = f.path := by
  unfold subjectsOf at h
  split at h
  · obtain ⟨e, -, rfl⟩ := List.mem_map.mp h
    cases e <;> rfl
  · rw [List.mem_singleton.mp h]
    rfl

theorem nodup_subjectsOf : (subjectsOf t f).Nodup := by
  unfold subjectsOf FixtureFile.load
  cases t.readText f.path with
  | error why => exact List.nodup_singleton _
  | ok text =>
      refine List.Pairwise.map _ (fun e e' hprecedes heq => ?_)
        (Fixture.pairwise_entries f.path text f.dialect)
      cases e with
      | ok c =>
          cases e' with
          | ok c' =>
              have hcursor := hprecedes.cursor c c' rfl rfl
              injection heq with _ hsame
              omega
          | error => cases heq
      | error e =>
          cases e' with
          | ok => cases heq
          | error e' =>
              have hline : e.line < e'.line := hprecedes.line
              injection heq with _ hsame
              omega

end Fixtures

/-! ## The names of all checks -/

section Directory

variable {t : Files.Tree} {dir : String} {entries : List (FileName × Node)}

theorem path_of_ordinaryFile? {name : String} {f : FixtureFile}
    (h : ordinaryFile? dir name = some f) : f.path = Path.join dir name := by
  unfold ordinaryFile? at h
  split at h
  · cases h
    rfl
  · cases h

theorem pairwise_paths_ofNames {names : List String} (hnodup : names.Nodup)
    (hplain : ∀ name ∈ names, Plain name) :
    (Scan.ofNames dir names).fixtures.Pairwise fun f g => f.path ≠ g.path := by
  unfold Scan.ofNames
  dsimp only
  split
  · exact List.pairwise_singleton _ _
  · have hpairs : names.Pairwise fun a b => a ≠ b ∧ Plain a ∧ Plain b :=
      (List.nodup_iff_pairwise_ne.mp hnodup).imp_of_mem fun ha hb hne =>
        ⟨hne, hplain _ ha, hplain _ hb⟩
    refine hpairs.filterMap _ fun a b ⟨hne, ha, hb⟩ f hf g hg heq => hne ?_
    rw [path_of_ordinaryFile? hf, path_of_ordinaryFile? hg] at heq
    exact ha.join_inj hb heq

theorem names_discover (hlist : t.list dir = .ok entries) :
    ∃ suite notices, discover t dir = .ok (suite, notices) ∧
      suite.checks.map Check.name
        = ((Scan.ofNames dir (candidateNames entries)).fixtures.flatMap (subjectsOf t)).map
            Subject.name := by
  obtain ⟨notices, hscan⟩ := exists_ofDirectory hlist
  rw [discover, hscan]
  refine ⟨_, _, rfl, ?_⟩
  simp only [List.flatMap_map, List.map_flatMap, names_checksOf]

/-- **A name stands for one check.**  The checks of a directory that can be listed have names that
are all different, whatever its files are called and hold. -/
theorem checkNames_nodup (h : t.Sound) (hlist : t.list dir = .ok entries) :
    ∃ suite notices, discover t dir = .ok (suite, notices) ∧
      (suite.checks.map Check.name).Nodup := by
  have hcounted := counted_candidateNames (h.names_list hlist).1
  have hplain : ∀ name ∈ candidateNames entries, Plain name := fun name hname =>
    ((hcounted.mem_iff name).mp hname).plain h hlist
  have hpaths : (Scan.ofNames dir _).fixtures.Pairwise fun f g => f.path ≠ g.path :=
    pairwise_paths_ofNames (nodup_candidateNames (h.names_list hlist).1) hplain
  obtain ⟨suite, notices, hsuite, hnames⟩ := names_discover hlist
  refine ⟨suite, notices, hsuite, ?_⟩
  rw [hnames]
  refine List.Nodup.map (fun _ _ => Subject.name_inj) (List.nodup_flatMap.mpr ⟨?_, ?_⟩)
  · exact fun f _ => nodup_subjectsOf
  · refine hpaths.imp fun {f g} hne s hf hg => hne ?_
    rw [← path_of_mem_subjectsOf hf, path_of_mem_subjectsOf hg]

end Directory

/-- A directory with a fixture that is no text, one with two cases without code and a fault, and one
whose name looks like the name of a case of it. -/
def colonListing : List (FileName × Node) :=
  [("4.py", .file [0xff]), ("a.ts", .file (Text.encode "// x\n// y\nz. // z; !z".toList)),
    ("a.ts:0.ts", .file (Text.encode "// x".toList))].map fun e => (Text.encode e.1.toList, e.2)

def colonTree : Files.Tree :=
  .ofRoot colonListing

theorem made_colonTree : colonTree.Made :=
  Files.Tree.made_ofRoot (by decide +kernel) (by decide +kernel)

theorem candidateNames_colonListing :
    candidateNames colonListing = ["4.py", "a.ts", "a.ts:0.ts"] := by
  have hsorted : ["4.py", "a.ts", "a.ts:0.ts"].Pairwise fun a b => decide (a ≤ b) = true := by
    decide +kernel
  have htexts : ((colonListing.filter fun e => e.2 ≠ .directory).filterMap fun e =>
      (Text.decode? e.1).map String.ofList).filter (fun name => name.toList.head? != some '.')
      = ["4.py", "a.ts", "a.ts:0.ts"] := by decide +kernel
  rw [candidateNames, htexts]
  exact List.mergeSort_of_pairwise hsorted

theorem subjectsOf_colonTree :
    subjectsOf colonTree ⟨"./4.py", .python⟩ = [.fixture "./4.py"] ∧
      subjectsOf colonTree ⟨"./a.ts", .typeScript⟩
        = [.case "./a.ts" 0, .case "./a.ts" 5, .fault "./a.ts" 3] ∧
      subjectsOf colonTree ⟨"./a.ts:0.ts", .typeScript⟩ = [.case "./a.ts:0.ts" 0] := by
  have hwalk (name : FileName) (content : List UInt8) (hname : Files.IsName name)
      (hfile : colonTree.find? [name] = some (.file content)) :
      colonTree.walk false Files.maxLinks [] [Files.selfName, name] = .ok [name] := by
    rw [Files.Tree.walk_self _ rfl]
    exact Files.Tree.walk_file rfl hname hfile
  have hbroken : colonTree.resolve (Files.Tree.pathBytes "./4.py")
      = .ok [Text.encode "4.py".toList] := hwalk _ _ (by decide) rfl
  have hcases : colonTree.resolve (Files.Tree.pathBytes "./a.ts")
      = .ok [Text.encode "a.ts".toList] := hwalk _ _ (by decide) rfl
  have hcase : colonTree.resolve (Files.Tree.pathBytes "./a.ts:0.ts")
      = .ok [Text.encode "a.ts:0.ts".toList] := hwalk _ _ (by decide) rfl
  unfold subjectsOf FixtureFile.load Files.Tree.readText
  rw [hbroken, hcases, hcase]
  decide +kernel

theorem subjects_colonTree :
    (Scan.ofNames "." ["4.py", "a.ts", "a.ts:0.ts"]).fixtures.flatMap (subjectsOf colonTree)
      = [.fixture "./4.py", .case "./a.ts" 0, .case "./a.ts" 5, .fault "./a.ts" 3,
          .case "./a.ts:0.ts" 0] := by
  have hfixtures : (Scan.ofNames "." ["4.py", "a.ts", "a.ts:0.ts"]).fixtures
      = [⟨"./4.py", .python⟩, ⟨"./a.ts", .typeScript⟩, ⟨"./a.ts:0.ts", .typeScript⟩] := by
    decide +kernel
  obtain ⟨hbroken, hcases, hcase⟩ := subjectsOf_colonTree
  rw [hfixtures, List.flatMap_cons, List.flatMap_cons, List.flatMap_cons, hbroken, hcases, hcase]
  rfl

theorem checkNames_nodup_colons :
    colonTree.Sound ∧ colonTree.list "." = .ok colonListing ∧
      ∃ suite notices, discover colonTree "." = .ok (suite, notices) ∧
        suite.checks.map Check.name = ["load ./4.py", "get completions ./a.ts:0",
          "get completions ./a.ts:5", "annotation ./a.ts:3", "get completions ./a.ts:0.ts:0"] ∧
        (suite.checks.map Check.name).Nodup := by
  have hlist : colonTree.list "." = .ok colonListing := Files.Tree.list_ofRoot colonListing
  have hsound : colonTree.Sound := made_colonTree.sound
  obtain ⟨suite, notices, hsuite, hnodup⟩ := checkNames_nodup hsound hlist
  obtain ⟨suite', notices', hsuite', hnames⟩ := names_discover hlist
  obtain ⟨rfl, -⟩ := Prod.mk.inj (Except.ok.inj (hsuite.symm.trans hsuite'))
  refine ⟨hsound, hlist, suite, notices, hsuite, ?_, hnodup⟩
  rw [hnames, candidateNames_colonListing, subjects_colonTree]
  decide +kernel

end CompletionCheck.Suite
