import CompletionCheck.Proofs.Files.Listing
import CompletionCheck.Proofs.Fixture.Tokens
import CompletionCheck.Proofs.Text.ByteOrder
import CompletionCheck.Suite.Scan

/-!
# What a directory holds for a suite

A scan is one pass over sorted names that stops at the first file to be run alone.  The rule it
follows is about all files at once: when one of them is to be run alone, it is the first of these in
the order of names, no other fixture is kept, not even one that was met before it, and of the skipped
files only those with smaller names are told of.

`Scan.Lawful` is that rule, over the files that count in their order (`Counted`).  It names no pass
and no function of the scan: a name holds a word or not, has an extension or not (`ClassOf`), and a
list of fixtures or skipped files is what the names in their order give (`Picks`).  The rule leaves
nothing open (`Scan.Lawful.unique`), and since the files that count do not depend on the order in
which a directory lists them, neither does what is found.

Order of names is order of bytes.  Names have no slashes in a sound tree, which is what an extension
is taken by: with a slash in a name, it would be that of the last part.
-/

namespace CompletionCheck.Suite

open Files (FileName Node)

/-! ## The files that count -/

/-- Names in the order of their bytes. -/
def NameBefore (a b : String) : Prop :=
  Text.encode a.toList < Text.encode b.toList

theorem nameBefore_iff {a b : String} : NameBefore a b ↔ a < b :=
  Text.encode_lt_encode_iff

/-- A file of a directory counts when its name is a text that does not begin with a dot. -/
def Counts (entries : List (FileName × Node)) (name : String) : Prop :=
  name.toList.head? ≠ some '.' ∧
    ∃ node, node ≠ .directory ∧ (Text.encode name.toList, node) ∈ entries

/-- The files of a directory that count, in the order of their names. -/
structure Counted (entries : List (FileName × Node)) (names : List String) : Prop where
  mem_iff : ∀ name, name ∈ names ↔ Counts entries name
  sorted : names.Pairwise NameBefore

theorem mem_candidateNames {entries : List (FileName × Node)} {name : String} :
    name ∈ candidateNames entries ↔ Counts entries name := by
  unfold candidateNames
  simp only [List.mem_mergeSort, List.mem_filter, List.mem_filterMap, Option.map_eq_some_iff,
    bne_iff_ne, decide_eq_true_eq]
  constructor
  · rintro ⟨⟨⟨bytes, node⟩, ⟨he, hnode⟩, cs, hcs, rfl⟩, hhead⟩
    refine ⟨hhead, node, hnode, ?_⟩
    rw [String.toList_ofList, ← Text.decode?_eq_some_iff.mp hcs]
    exact he
  · rintro ⟨hhead, node, hnode, he⟩
    exact ⟨⟨_, ⟨he, hnode⟩, name.toList, Text.decode?_encode _, String.ofList_toList⟩, hhead⟩

theorem nodup_candidateNames {entries : List (FileName × Node)}
    (h : (entries.map Prod.fst).Nodup) : (candidateNames entries).Nodup := by
  unfold candidateNames
  refine (List.mergeSort_perm _ _).nodup_iff.mpr (List.Nodup.filter _ ?_)
  have hfiles : ((entries.filter fun e => e.2 ≠ .directory).map Prod.fst).Nodup :=
    h.sublist (List.filter_sublist.map _)
  have htexts : (entries.filter fun e => e.2 ≠ .directory).filterMap
      (fun e => (Text.decode? e.1).map String.ofList)
      = ((entries.filter fun e => e.2 ≠ .directory).map Prod.fst).filterMap
          fun bytes => (Text.decode? bytes).map String.ofList := by
    rw [List.filterMap_map]
    rfl
  rw [htexts]
  refine hfiles.filterMap fun a b name ha hb => ?_
  obtain ⟨cs, hcs, hname⟩ := Option.map_eq_some_iff.mp ha
  obtain ⟨ds, hds, rfl⟩ := Option.map_eq_some_iff.mp hb
  rw [Text.decode?_eq_some_iff.mp hcs, Text.decode?_eq_some_iff.mp hds,
    String.ofList_injective hname]

theorem counted_candidateNames {entries : List (FileName × Node)}
    (h : (entries.map Prod.fst).Nodup) : Counted entries (candidateNames entries) where
  mem_iff _ := mem_candidateNames
  sorted := by
    have hle : (candidateNames entries).Pairwise fun a b => decide (a ≤ b) = true :=
      List.pairwise_mergeSort (by simpa using fun a b c => String.le_trans)
        (by simpa using String.le_total) _
    have hne := List.nodup_iff_pairwise_ne.mp (nodup_candidateNames h)
    refine (hle.and hne).imp fun {a b} ⟨hab, hdistinct⟩ => nameBefore_iff.mpr ?_
    exact Std.lt_of_le_of_ne (of_decide_eq_true hab) hdistinct

theorem Counted.unique {entries : List (FileName × Node)} {names names' : List String}
    (h : Counted entries names) (h' : Counted entries names') : names = names' :=
  Fixture.eq_of_increasing (h.sorted.imp nameBefore_iff.mp) (h'.sorted.imp nameBefore_iff.mp)
    fun name => (h.mem_iff name).trans (h'.mem_iff name).symm

/-! ## What a name says -/

/-- A name of a file: no slash divides it, and it is not hidden. -/
structure Plain (name : String) : Prop where
  undivided : '/' ∉ name.toList
  shown : name.toList.head? ≠ some '.'

/-- A word stands in a name. -/
def Holds (word name : String) : Prop :=
  word.toList <:+: name.toList

/-- A name ends in a dot and an extension, and is not these alone. -/
def HasExtension (name extension : String) : Prop :=
  ∃ stem, stem ≠ [] ∧ name.toList = stem ++ '.' :: extension.toList

/-- `ClassOf name c`: a file of that name can be run, in a dialect, or is skipped for a reason. -/
inductive ClassOf (name : String) : Except SkipReason Dialect → Prop
  | todo : Holds "TODO" name → ClassOf name (.error .todo)
  | unsupported : ¬ Holds "TODO" name → (∀ d : Dialect, ¬ HasExtension name d.extension) →
      ClassOf name (.error .unsupportedExtension)
  | admissible {d : Dialect} : ¬ Holds "TODO" name → HasExtension name d.extension →
      ClassOf name (.ok d)

theorem occursIn_iff {word name : String} :
    Text.occursIn word.toList name.toList = true ↔ Holds word name :=
  Text.isSome_cutAt?_iff

theorem fileName?_of_plain {name : String} (h : Plain name) (hname : name.toList ≠ []) :
    Path.fileName? name = some name.toList := by
  have hpieces : Path.pieces name = [name.toList] := List.splitOn_eq_singleton h.undivided
  have hdots : ¬ (name.toList == ['.'] || name.toList == ['.', '.']) = true := by
    intro hdots
    rw [Bool.or_eq_true, beq_iff_eq, beq_iff_eq] at hdots
    rcases hdots with hdots | hdots <;> exact h.shown (by rw [hdots]; rfl)
  rw [Path.fileName?, hpieces, List.reverse_singleton, Path.dropIdle,
    if_neg (by simpa using hname)]
  dsimp only
  rw [if_neg hdots]

theorem extension?_eq_some_iff {name extension : String} (h : Plain name) :
    Path.extension? name = some extension ↔
      HasExtension name extension ∧ '.' ∉ extension.toList := by
  by_cases hname : name.toList = []
  · have hnone : Path.extension? name = none := by
      obtain rfl : name = "" := String.toList_eq_nil_iff.mp hname
      rfl
    rw [hnone]
    refine iff_of_false (by simp) ?_
    rintro ⟨⟨stem, -, hstem⟩, -⟩
    rw [hname] at hstem
    simp at hstem
  rw [Path.extension?, fileName?_of_plain h hname, Option.bind_some]
  constructor
  · intro hext
    obtain ⟨run, rest, hspan, hreverse, hrun, hrest⟩ :=
      Fixture.span_cases (fun c => decide (c ≠ '.')) name.toList.reverse
    rw [hspan] at hext
    obtain rfl | ⟨c, later, rfl, hc⟩ := hrest
    · cases hext
    · obtain rfl : c = '.' := by simpa using hc
      cases later with
      | nil => cases hext
      | cons d later =>
          obtain rfl : String.ofList run.reverse = extension := by simpa using hext
          refine ⟨⟨(d :: later).reverse, by simp, ?_⟩, ?_⟩
          · rw [← List.reverse_reverse name.toList, hreverse, String.toList_ofList]
            simp
          · rw [String.toList_ofList, List.mem_reverse]
            intro hmem
            simpa using hrun _ hmem
  · rintro ⟨⟨stem, hstem, hwhole⟩, hdot⟩
    have hreverse : name.toList.reverse
        = extension.toList.reverse ++ '.' :: stem.reverse := by
      rw [hwhole]
      simp
    have hspan : name.toList.reverse.span (fun c => decide (c ≠ '.'))
        = (extension.toList.reverse, '.' :: stem.reverse) := by
      have hall : ∀ c ∈ extension.toList.reverse, decide (c ≠ '.') = true := by
        intro c hc
        rw [decide_eq_true_eq]
        rintro rfl
        exact hdot (List.mem_reverse.mp hc)
      rw [hreverse, List.span_eq_takeWhile_dropWhile, List.takeWhile_append_of_pos hall,
        List.dropWhile_append_of_pos hall]
      simp
    rw [hspan]
    obtain ⟨d, later, hlater⟩ := List.exists_cons_of_ne_nil
      (fun hnil => hstem (List.reverse_eq_nil_iff.mp hnil))
    rw [hlater]
    simp

theorem ofPath?_eq_some_iff {name : String} {d : Dialect} (h : Plain name) :
    Dialect.ofPath? name = some d ↔ HasExtension name d.extension := by
  rw [Dialect.ofPath?, Option.bind_eq_some_iff]
  constructor
  · rintro ⟨extension, hext, hd⟩
    rw [Dialect.ofExtension?_eq_some_iff.mp hd]
    exact ((extension?_eq_some_iff h).mp hext).1
  · intro hext
    have hdot : '.' ∉ d.extension.toList := by cases d <;> decide
    exact ⟨d.extension, (extension?_eq_some_iff h).mpr ⟨hext, hdot⟩, d.ofExtension?_extension⟩

theorem ClassOf.unique {name : String} (hname : Plain name) {c c' : Except SkipReason Dialect}
    (h : ClassOf name c) (h' : ClassOf name c') : c = c' := by
  cases h with
  | todo htodo =>
      cases h' with
      | todo => rfl
      | unsupported hno => exact absurd htodo hno
      | admissible hno => exact absurd htodo hno
  | unsupported hno hnone =>
      cases h' with
      | todo htodo => exact absurd htodo hno
      | unsupported => rfl
      | admissible _ hext => exact absurd hext (hnone _)
  | admissible hno hext =>
      cases h' with
      | todo htodo => exact absurd htodo hno
      | unsupported _ hnone => exact absurd hext (hnone _)
      | admissible _ hext' =>
          have hd := (ofPath?_eq_some_iff hname).mpr hext
          have hd' := (ofPath?_eq_some_iff hname).mpr hext'
          exact congrArg Except.ok (Option.some.inj (hd.symm.trans hd'))

/-- What becomes of a file is what its name says, once it is known whether it holds `ONLY`. -/
inductive FateOf (name : String) : Fate → Prop
  | skipped {why : SkipReason} : ClassOf name (.error why) → FateOf name (.skipped why)
  | ordinary {d : Dialect} : ClassOf name (.ok d) → ¬ Holds "ONLY" name → FateOf name (.ordinary d)
  | alone {d : Dialect} : ClassOf name (.ok d) → Holds "ONLY" name → FateOf name (.alone d)

theorem fateOf_fate {name : String} (h : Plain name) : FateOf name (fate name) := by
  unfold fate
  split
  · next htodo => exact .skipped (.todo (occursIn_iff.mp htodo))
  · next htodo =>
      have hno : ¬ Holds "TODO" name := fun hholds => htodo (occursIn_iff.mpr hholds)
      split
      · next hnone =>
          refine .skipped (.unsupported hno fun d hext => ?_)
          rw [(ofPath?_eq_some_iff h).mpr hext] at hnone
          cases hnone
      · next d hd =>
          have hclass : ClassOf name (.ok d) := .admissible hno ((ofPath?_eq_some_iff h).mp hd)
          split
          · next honly => exact .alone hclass (occursIn_iff.mp honly)
          · next honly => exact .ordinary hclass fun hholds => honly (occursIn_iff.mpr hholds)

theorem FateOf.unique {name : String} (hname : Plain name) {f f' : Fate} (h : FateOf name f)
    (h' : FateOf name f') : f = f' := by
  cases h with
  | skipped hclass =>
      cases h' with
      | skipped hclass' => cases hclass.unique hname hclass'; rfl
      | ordinary hclass' => cases hclass.unique hname hclass'
      | alone hclass' => cases hclass.unique hname hclass'
  | ordinary hclass hno =>
      cases h' with
      | skipped hclass' => cases hclass.unique hname hclass'
      | ordinary hclass' => cases hclass.unique hname hclass'; rfl
      | alone _ honly => exact absurd honly hno
  | alone hclass honly =>
      cases h' with
      | skipped hclass' => cases hclass.unique hname hclass'
      | ordinary _ hno => exact absurd honly hno
      | alone hclass' => cases hclass.unique hname hclass'; rfl

theorem fate_eq_iff {name : String} (h : Plain name) {f : Fate} : fate name = f ↔ FateOf name f := by
  constructor
  · rintro rfl
    exact fateOf_fate h
  · exact (fateOf_fate h).unique h

/-- A file that is to be run alone. -/
def WantsAlone (name : String) (d : Dialect) : Prop :=
  ClassOf name (.ok d) ∧ Holds "ONLY" name

/-- `Gives dir name x`: a file of that name in a directory is the fixture, or else the skipped file,
`x`. -/
inductive Gives (dir name : String) : Except Skipped FixtureFile → Prop
  | fixture {d : Dialect} : ClassOf name (.ok d) → Gives dir name (.ok ⟨Path.join dir name, d⟩)
  | skipped {why : SkipReason} : ClassOf name (.error why) →
      Gives dir name (.error ⟨Path.join dir name, why⟩)

theorem fate_eq_alone_iff {name : String} (h : Plain name) {d : Dialect} :
    fate name = .alone d ↔ WantsAlone name d := by
  rw [fate_eq_iff h]
  constructor
  · intro hfate
    cases hfate with
    | alone hclass honly => exact ⟨hclass, honly⟩
  · rintro ⟨hclass, honly⟩
    exact .alone hclass honly

theorem skippedFile?_eq_some_iff {dir name : String} (h : Plain name) {s : Skipped} :
    skippedFile? dir name = some s ↔ Gives dir name (.error s) := by
  unfold skippedFile?
  constructor
  · intro hs
    split at hs
    · next why heq =>
        cases hs
        cases (fate_eq_iff h).mp heq with
        | skipped hclass => exact .skipped hclass
    · cases hs
  · intro hgives
    cases hgives with
    | skipped hclass => rw [(fate_eq_iff h).mpr (.skipped hclass)]

theorem ordinaryFile?_eq_some_iff {dir name : String} (h : Plain name)
    (halone : ∀ d, fate name ≠ .alone d) {f : FixtureFile} :
    ordinaryFile? dir name = some f ↔ Gives dir name (.ok f) := by
  unfold ordinaryFile?
  constructor
  · intro hf
    split at hf
    · next d heq =>
        cases hf
        cases (fate_eq_iff h).mp heq with
        | ordinary hclass => exact .fixture hclass
    · cases hf
  · intro hgives
    cases hgives with
    | fixture hclass =>
        have hno : ¬ Holds "ONLY" name := fun honly =>
          halone _ ((fate_eq_iff h).mpr (.alone hclass honly))
        rw [(fate_eq_iff h).mpr (.ordinary hclass hno)]

/-! ## The pass over the names -/

/-- `Picks R names xs`: each name that stands in `R` to something gives it, the others give nothing,
and this is what the names give in their order. -/
inductive Picks {α : Type} (R : String → α → Prop) : List String → List α → Prop
  | nil : Picks R [] []
  | take {name : String} {x : α} {names : List String} {xs : List α} :
      R name x → Picks R names xs → Picks R (name :: names) (x :: xs)
  | pass {name : String} {names : List String} {xs : List α} :
      (∀ x, ¬ R name x) → Picks R names xs → Picks R (name :: names) xs

theorem picks_filterMap {α : Type} {R : String → α → Prop} {f : String → Option α}
    {names : List String} (h : ∀ name ∈ names, ∀ x, f name = some x ↔ R name x) :
    Picks R names (names.filterMap f) := by
  induction names with
  | nil => exact .nil
  | cons name names ih =>
      obtain ⟨hname, hnames⟩ := List.forall_mem_cons.mp h
      cases hf : f name with
      | none =>
          rw [List.filterMap_cons_none hf]
          refine .pass (fun x hx => ?_) (ih hnames)
          rw [(hname x).mpr hx] at hf
          cases hf
      | some x =>
          rw [List.filterMap_cons_some hf]
          exact .take ((hname x).mp hf) (ih hnames)

theorem Picks.unique {α : Type} {R : String → α → Prop} {names : List String} {xs ys : List α}
    (hR : ∀ name ∈ names, ∀ x y, R name x → R name y → x = y) (h : Picks R names xs)
    (h' : Picks R names ys) : xs = ys := by
  induction h generalizing ys with
  | nil =>
      cases h'
      rfl
  | take hx _ ih =>
      obtain ⟨hname, hnames⟩ := List.forall_mem_cons.mp hR
      cases h' with
      | take hy hrest => rw [hname _ _ hx hy, ih hnames hrest]
      | pass hnone => exact absurd hx (hnone _)
  | pass hnone _ ih =>
      obtain ⟨-, hnames⟩ := List.forall_mem_cons.mp hR
      cases h' with
      | take hy => exact absurd hy (hnone _)
      | pass _ hrest => exact ih hnames hrest

theorem Picks.mem_iff {α : Type} {R : String → α → Prop} {names : List String} {xs : List α}
    (hR : ∀ name ∈ names, ∀ x y, R name x → R name y → x = y) (h : Picks R names xs) {x : α} :
    x ∈ xs ↔ ∃ name ∈ names, R name x := by
  induction h with
  | nil => simp
  | take hy _ ih =>
      obtain ⟨hname, hnames⟩ := List.forall_mem_cons.mp hR
      rw [List.mem_cons, ih hnames, List.exists_mem_cons_iff]
      refine or_congr_left ⟨fun heq => ?_, fun hx => hname _ _ hx hy⟩
      rw [heq]
      exact hy
  | pass hnone _ ih =>
      obtain ⟨-, hnames⟩ := List.forall_mem_cons.mp hR
      rw [ih hnames, List.exists_mem_cons_iff]
      exact (or_iff_right (hnone _)).symm

/-- What files in their order amount to, by the rules for names. -/
inductive Scan.Lawful (dir : String) (names : List String) : Scan → Prop
  | all {fixtures : List FixtureFile} {skipped : List Skipped} :
      (∀ name ∈ names, ∀ d, ¬ WantsAlone name d) →
      Picks (fun name f => Gives dir name (.ok f)) names fixtures →
      Picks (fun name s => Gives dir name (.error s)) names skipped →
      Lawful dir names ⟨fixtures, skipped, false⟩
  | alone {before after : List String} {name : String} {d : Dialect} {skipped : List Skipped} :
      names = before ++ name :: after → WantsAlone name d →
      (∀ earlier ∈ before, ∀ d, ¬ WantsAlone earlier d) →
      Picks (fun name s => Gives dir name (.error s)) before skipped →
      Lawful dir names ⟨[⟨Path.join dir name, d⟩], skipped, true⟩

section Pass

variable {dir : String} {names : List String}

theorem first_alone (names : List String) :
    (∀ name ∈ names, ∀ d, fate name ≠ .alone d) ∨
      ∃ before name after d, names = before ++ name :: after ∧ fate name = .alone d ∧
        ∀ earlier ∈ before, ∀ d, fate earlier ≠ .alone d := by
  induction names with
  | nil => exact Or.inl fun _ h => absurd h List.not_mem_nil
  | cons name names ih =>
      by_cases hname : ∃ d, fate name = .alone d
      · obtain ⟨d, hd⟩ := hname
        exact Or.inr ⟨[], name, names, d, rfl, hd, fun _ h => absurd h List.not_mem_nil⟩
      · have hname : ∀ d, fate name ≠ .alone d := fun d hd => hname ⟨d, hd⟩
        obtain hnone | ⟨before, m, after, d, rfl, hd, hbefore⟩ := ih
        · exact Or.inl (List.forall_mem_cons.mpr ⟨hname, hnone⟩)
        · exact Or.inr ⟨name :: before, m, after, d, rfl, hd,
            List.forall_mem_cons.mpr ⟨hname, hbefore⟩⟩

theorem visited_append {before : List String} (h : ∀ name ∈ before, ∀ d, fate name ≠ .alone d)
    (rest : List String) : visited (before ++ rest) = before ++ visited rest := by
  induction before with
  | nil => rfl
  | cons name before ih =>
      obtain ⟨hname, hbefore⟩ := List.forall_mem_cons.mp h
      rw [List.cons_append, visited]
      split
      · next d hd => exact absurd hd (hname d)
      · rw [ih hbefore]
        rfl

theorem visited_eq_self (h : ∀ name ∈ names, ∀ d, fate name ≠ .alone d) :
    visited names = names := by
  have happend := visited_append h []
  rwa [List.append_nil, visited, List.append_nil] at happend

theorem aloneIn?_eq_none (h : ∀ name ∈ names, ∀ d, fate name ≠ .alone d) :
    aloneIn? dir names = none := by
  refine List.findSome?_eq_none_iff.mpr fun name hname => ?_
  split
  · next d hd => exact absurd hd (h name hname d)
  · rfl

theorem aloneIn?_append {before after : List String} {name : String} {d : Dialect}
    (h : ∀ earlier ∈ before, ∀ d, fate earlier ≠ .alone d) (hname : fate name = .alone d) :
    aloneIn? dir (before ++ name :: after) = some ⟨Path.join dir name, d⟩ := by
  have hbefore : aloneIn? dir before = none := aloneIn?_eq_none h
  rw [aloneIn?] at hbefore ⊢
  rw [List.findSome?_append, hbefore, Option.none_or, List.findSome?_cons, hname]

/-- The pass finds what the rule says. -/
theorem lawful_ofNames (hplain : ∀ name ∈ names, Plain name) :
    Scan.Lawful dir names (Scan.ofNames dir names) := by
  obtain hnone | ⟨before, name, after, d, rfl, hd, hbefore⟩ := first_alone names
  · rw [Scan.ofNames, visited_eq_self hnone, aloneIn?_eq_none hnone]
    refine .all (fun name hname d hwants => ?_) (picks_filterMap fun name hname f => ?_)
      (picks_filterMap fun name hname s => skippedFile?_eq_some_iff (hplain name hname))
    · exact hnone name hname d ((fate_eq_alone_iff (hplain name hname)).mpr hwants)
    · exact ordinaryFile?_eq_some_iff (hplain name hname) (hnone name hname)
  · have hskipped : (visited (before ++ name :: after)).filterMap (skippedFile? dir)
        = before.filterMap (skippedFile? dir) := by
      rw [visited_append hbefore, visited, hd, List.filterMap_append]
      simp [skippedFile?, hd]
    rw [Scan.ofNames, aloneIn?_append hbefore hd, hskipped]
    have hplain' : ∀ earlier ∈ before, Plain earlier := fun earlier hearlier =>
      hplain earlier (List.mem_append_left _ hearlier)
    refine .alone rfl ((fate_eq_alone_iff (hplain name (by simp))).mp hd)
      (fun earlier hearlier d hwants => ?_)
      (picks_filterMap fun earlier hearlier s => skippedFile?_eq_some_iff (hplain' earlier hearlier))
    exact hbefore earlier hearlier d ((fate_eq_alone_iff (hplain' earlier hearlier)).mpr hwants)

/-! ## The rule leaves nothing open -/

theorem Gives.unique {name : String} (h : Plain name) {x y : Except Skipped FixtureFile}
    (hx : Gives dir name x) (hy : Gives dir name y) : x = y := by
  cases hx with
  | fixture hclass =>
      cases hy with
      | fixture hclass' => cases hclass.unique h hclass'; rfl
      | skipped hclass' => cases hclass.unique h hclass'
  | skipped hclass =>
      cases hy with
      | fixture hclass' => cases hclass.unique h hclass'
      | skipped hclass' => cases hclass.unique h hclass'; rfl

/-- A list is cut in one way only at the first of its members with a property. -/
theorem append_cons_inj_of_first {α : Type} {P : α → Prop} {xs ys us vs : List α} {a b : α}
    (h : xs ++ a :: us = ys ++ b :: vs) (ha : P a) (hb : P b) (hxs : ∀ x ∈ xs, ¬ P x)
    (hys : ∀ y ∈ ys, ¬ P y) : xs = ys ∧ a = b := by
  induction xs generalizing ys with
  | nil =>
      cases ys with
      | nil => exact ⟨rfl, (List.cons.inj h).1⟩
      | cons y ys => exact absurd ((List.cons.inj h).1 ▸ ha) (hys y List.mem_cons_self)
  | cons x xs ih =>
      cases ys with
      | nil => exact absurd ((List.cons.inj h).1 ▸ hb) (hxs x List.mem_cons_self)
      | cons y ys =>
          obtain ⟨rfl, hrest⟩ := List.cons.inj h
          obtain ⟨rfl, rfl⟩ := ih hrest (fun x hx => hxs x (List.mem_cons_of_mem _ hx))
            fun y hy => hys y (List.mem_cons_of_mem _ hy)
          exact ⟨rfl, rfl⟩

theorem Scan.Lawful.unique (hplain : ∀ name ∈ names, Plain name) {s s' : Scan}
    (h : Scan.Lawful dir names s) (h' : Scan.Lawful dir names s') : s = s' := by
  have hfixture : ∀ name ∈ names, ∀ f f', Gives dir name (.ok f) → Gives dir name (.ok f') →
      f = f' := fun name hname _ _ hf hf' => Except.ok.inj (hf.unique (hplain name hname) hf')
  have hskipped : ∀ name ∈ names, ∀ s s', Gives dir name (.error s) → Gives dir name (.error s') →
      s = s' := fun name hname _ _ hs hs' => Except.error.inj (hs.unique (hplain name hname) hs')
  cases h with
  | all hnone hfixtures hskips =>
      cases h' with
      | all _ hfixtures' hskips' =>
          rw [hfixtures.unique hfixture hfixtures', hskips.unique hskipped hskips']
      | alone hnames hwants => exact absurd hwants (hnone _ (by simp [hnames]) _)
  | @alone before after name d skipped hnames hwants hbefore hskips =>
      cases h' with
      | all hnone => exact absurd hwants (hnone _ (by simp [hnames]) _)
      | @alone before' after' name' d' skipped' hnames' hwants' hbefore' hskips' =>
          obtain ⟨rfl, rfl⟩ := append_cons_inj_of_first (P := fun n => ∃ d, WantsAlone n d)
            (hnames.symm.trans hnames') ⟨d, hwants⟩ ⟨d', hwants'⟩
            (fun n hn ⟨d, hd⟩ => hbefore n hn d hd) (fun n hn ⟨d, hd⟩ => hbefore' n hn d hd)
          have hname : Plain name := hplain name (by simp [hnames])
          cases hwants.1.unique hname hwants'.1
          rw [hskips.unique (fun n hn => hskipped n (by simp [hnames, hn])) hskips']

/-! ## The scan of a directory -/

theorem Plain.isAbsolute_eq_false {name : String} (h : Plain name) :
    Path.isAbsolute name = false := by
  cases hname : name.toList with
  | nil => simp [Path.isAbsolute, hname]
  | cons c cs =>
      have hc : c ≠ '/' := by
        rintro rfl
        exact h.undivided (hname ▸ List.mem_cons_self)
      simpa [Path.isAbsolute, hname] using hc

theorem Plain.join_inj {name name' : String} (h : Plain name) (h' : Plain name')
    (heq : Path.join dir name = Path.join dir name') : name = name' :=
  Path.join_inj h.isAbsolute_eq_false h'.isAbsolute_eq_false heq

theorem Counts.plain {t : Files.Tree} (h : t.Sound) {entries : List (FileName × Node)}
    (hlist : t.list dir = .ok entries) {name : String} (hname : Counts entries name) :
    Plain name := by
  obtain ⟨hhead, node, -, he⟩ := hname
  refine ⟨fun hslash => ?_, hhead⟩
  refine (h.names_list hlist).2 _ he (List.mem_flatMap.mpr ⟨'/', hslash, ?_⟩)
  show Files.slash ∈ String.utf8EncodeChar '/'
  decide

theorem exists_gives {name : String} (h : Plain name) : ∃ x, Gives dir name x := by
  have hfate := fateOf_fate h
  generalize fate name = f at hfate
  cases hfate with
  | skipped hclass => exact ⟨_, .skipped hclass⟩
  | ordinary hclass => exact ⟨_, .fixture hclass⟩
  | alone hclass => exact ⟨_, .fixture hclass⟩

/-- A file is kept, with its path. -/
def Scan.Keeps (s : Scan) (path : String) : Prop :=
  ∃ f ∈ s.fixtures, f.path = path

/-- A file is skipped, with its path. -/
def Scan.Skips (s : Scan) (path : String) : Prop :=
  ∃ k ∈ s.skipped, k.path = path

theorem Scan.Lawful.xor (hplain : ∀ name ∈ names, Plain name) {s : Scan}
    (h : Scan.Lawful dir names s) (hs : s.isolated = false) {name : String} (hname : name ∈ names) :
    Xor (s.Keeps (Path.join dir name)) (s.Skips (Path.join dir name)) := by
  cases h with
  | alone => cases hs
  | @all fixtures skipped _ hfixtures hskips =>
      have hkept {f : FixtureFile} : f ∈ fixtures ↔ ∃ n ∈ names, Gives dir n (.ok f) :=
        hfixtures.mem_iff fun n hn _ _ hf hf' => Except.ok.inj (hf.unique (hplain n hn) hf')
      have hskipped {k : Skipped} : k ∈ skipped ↔ ∃ n ∈ names, Gives dir n (.error k) :=
        hskips.mem_iff fun n hn _ _ hk hk' => Except.error.inj (hk.unique (hplain n hn) hk')
      -- a path tells the name, and the name what the file is
      obtain ⟨x, hx⟩ : ∃ x, Gives dir name x := exists_gives (hplain name hname)
      cases hx with
      | fixture hclass =>
          refine Or.inl ⟨⟨_, hkept.mpr ⟨name, hname, .fixture hclass⟩, rfl⟩, ?_⟩
          rintro ⟨k, hk, hpath⟩
          obtain ⟨n, hn, hgives⟩ := hskipped.mp hk
          cases hgives with
          | skipped hclass' =>
              obtain rfl := (hplain n hn).join_inj (hplain name hname) hpath
              cases hclass.unique (hplain n hn) hclass'
      | skipped hclass =>
          refine Or.inr ⟨⟨_, hskipped.mpr ⟨name, hname, .skipped hclass⟩, rfl⟩, ?_⟩
          rintro ⟨f, hf, hpath⟩
          obtain ⟨n, hn, hgives⟩ := hkept.mp hf
          cases hgives with
          | fixture hclass' =>
              obtain rfl := (hplain n hn).join_inj (hplain name hname) hpath
              cases hclass.unique (hplain n hn) hclass'

theorem exists_ofDirectory {t : Files.Tree} {entries : List (FileName × Node)}
    (hlist : t.list dir = .ok entries) : ∃ notices,
      Scan.ofDirectory t dir = .ok (Scan.ofNames dir (candidateNames entries), notices) := by
  rw [Scan.ofDirectory, hlist]
  exact ⟨_, rfl⟩

/-- **A directory is scanned by the rule for names, in whatever order it lists them.**  A scan of a
directory that can be listed gives the one outcome that the rule allows for the files that count, in
the order of the bytes of their names.  Unless one of them is run alone, each is either kept or
skipped.  And the outcome is the same whenever the same entries are listed in another order. -/
theorem scan_lawful {t : Files.Tree} (h : t.Sound) {entries : List (FileName × Node)}
    (hlist : t.list dir = .ok entries) :
    ∃ names s notices, Counted entries names ∧ Scan.ofDirectory t dir = .ok (s, notices) ∧
      (∀ s', Scan.Lawful dir names s' ↔ s' = s) ∧
      (s.isolated = false → ∀ name ∈ names,
        Xor (s.Keeps (Path.join dir name)) (s.Skips (Path.join dir name))) ∧
      ∀ (t' : Files.Tree) (entries' : List (FileName × Node)), t'.list dir = .ok entries' →
        entries'.Perm entries → ∃ notices', Scan.ofDirectory t' dir = .ok (s, notices') := by
  have hnames := (h.names_list hlist).1
  have hcounted := counted_candidateNames hnames
  have hplain : ∀ name ∈ candidateNames entries, Plain name := fun name hname =>
    ((hcounted.mem_iff name).mp hname).plain h hlist
  have hlawful : Scan.Lawful dir _ _ := lawful_ofNames hplain
  obtain ⟨notices, hscan⟩ := exists_ofDirectory hlist
  refine ⟨_, _, notices, hcounted, hscan, fun s' => ⟨fun hs' => hs'.unique hplain hlawful, ?_⟩,
    fun hs name hname => hlawful.xor hplain hs hname, fun t' entries' hlist' hperm => ?_⟩
  · rintro rfl
    exact hlawful
  · have hcounted' := counted_candidateNames ((hperm.map Prod.fst).nodup_iff.mpr hnames)
    have hsame : Counted entries (candidateNames entries') := by
      refine ⟨fun name => (hcounted'.mem_iff name).trans ?_, hcounted'.sorted⟩
      simp only [Counts, hperm.mem_iff]
    rw [hcounted.unique hsame]
    exact exists_ofDirectory hlist'

end Pass

/-- A directory in which the files around the two that ask to be run alone are of every kind. -/
def sampleListing : List (FileName × Node) :=
  [("z.ts", .file []), ("e_ONLY.ts", .file []), ("d_ONLY.py", .link (Text.encode "a.ts".toList)),
    ("c.md", .file []), ("n.py", .directory), (".h_ONLY.ts", .file []),
    ("b_ONLY_TODO.ts", .file []), ("a.ts", .file [])].map fun e => (Text.encode e.1.toList, e.2)

def sampleTree : Files.Tree :=
  .ofRoot sampleListing

def sampleNames : List String :=
  ["a.ts", "b_ONLY_TODO.ts", "c.md", "d_ONLY.py", "e_ONLY.ts", "z.ts"]

theorem nodup_sampleListing : (sampleListing.map Prod.fst).Nodup := by decide +kernel

theorem made_sampleTree : sampleTree.Made :=
  Files.Tree.made_ofRoot nodup_sampleListing (by decide +kernel)

theorem candidateNames_sampleListing : candidateNames sampleListing = sampleNames := by
  have hsorted := (counted_candidateNames nodup_sampleListing).sorted
  refine Fixture.eq_of_increasing (hsorted.imp nameBefore_iff.mp) (by decide +kernel) fun name => ?_
  have htexts : ((sampleListing.filter fun e => e.2 ≠ .directory).filterMap fun e =>
      (Text.decode? e.1).map String.ofList).filter (fun name => name.toList.head? != some '.')
      = ["z.ts", "e_ONLY.ts", "d_ONLY.py", "c.md", "b_ONLY_TODO.ts", "a.ts"] := by decide +kernel
  have hperm : ["z.ts", "e_ONLY.ts", "d_ONLY.py", "c.md", "b_ONLY_TODO.ts", "a.ts"].Perm
      sampleNames := by decide +kernel
  rw [candidateNames, List.mem_mergeSort, htexts, hperm.mem_iff]

theorem scan_lawful_alone :
    sampleTree.Sound ∧ sampleTree.list "." = .ok sampleListing ∧
      Scan.Lawful "." sampleNames
        ⟨[⟨"./d_ONLY.py", .python⟩],
          [⟨"./b_ONLY_TODO.ts", .todo⟩, ⟨"./c.md", .unsupportedExtension⟩], true⟩ := by
  have hsound : sampleTree.Sound := made_sampleTree.sound
  have hlist : sampleTree.list "." = .ok sampleListing := Files.Tree.list_ofRoot sampleListing
  obtain ⟨names, s, notices, hcounted, hscan, hlawful, -⟩ := scan_lawful hsound hlist
  have hnames : names = sampleNames := by
    rw [← candidateNames_sampleListing]
    exact hcounted.unique (counted_candidateNames nodup_sampleListing)
  obtain ⟨notices', hscan'⟩ := exists_ofDirectory hlist
  rw [hscan, candidateNames_sampleListing] at hscan'
  rw [← hnames, hlawful]
  refine ⟨hsound, hlist, ?_⟩
  have hs : s = Scan.ofNames "." sampleNames := by injection hscan' with h; injection h
  rw [hs]
  decide +kernel

end CompletionCheck.Suite
