import CompletionCheck.Fixture.Case
import CompletionCheck.Proofs.Fixture.Lines

/-!
# The offsets of cases

Everything that is said about a fixture, a verdict as well as the span of a diagnosis, rests on the
offsets that extraction gives, and those are sums of byte lengths.  The statements here compare
them with the text itself: a line by `IsLine`, the place of the marker by `Cut`, and the cursor by
`CursorAt`, none of which adds anything up.

The facts about one line are in `entryOf?_cases`; the whole fixture follows from them by the order of
its lines, so a faulty line cannot shift what comes after it.
-/

namespace CompletionCheck.Fixture

/-! ## The marker -/

/-- A line is `code`, the first marker of the dialect that it holds, and `rest`. -/
structure Cut (d : Dialect) (line code rest : List Char) : Prop where
  whole : line = code ++ (d.marker.toList ++ rest)
  first : ∀ x y, x ++ (d.marker.toList ++ y) = code ++ d.marker.toList → y = []

theorem cut_of_scan {d : Dialect} {line code payload : List Char}
    (h : Line.scan d line = .annotated code payload) : ∃ rest, Cut d line code rest := by
  unfold Line.scan at h
  split at h
  · next before after hcut =>
      cases h
      exact ⟨after, (Text.append_of_cutAt? hcut).symm, fun x y => Text.eq_nil_of_cutAt? hcut⟩
  · exact absurd h (by simp)

theorem scan_eq_plain_iff {d : Dialect} {line : List Char} :
    Line.scan d line = .plain ↔ ¬ d.marker.toList <:+: line := by
  rw [← Text.isSome_cutAt?_iff, Line.scan]
  cases Text.cutAt? d.marker.toList line <;> simp

/-! ## The cursor -/

/-- The cursor of a code: behind its last character other than a space if that is a dot, before it
if it is not, and at the beginning if there is none. -/
structure CursorAt (code : List Char) (offset : Nat) : Prop where
  blank : (∀ c ∈ code, c = ' ') → offset = 0
  last : ∀ before last spaces, code = before ++ last :: spaces → last ≠ ' ' →
    (∀ c ∈ spaces, c = ' ') →
    offset = if last = '.' then Text.byteLength (before ++ [last]) else Text.byteLength before
  /-- It stands between two characters of the code or at an end of it. -/
  boundary : ∃ passed, passed <+: code ∧ Text.byteLength passed = offset

theorem dropWhile_reverse_spaces {before spaces : List Char} {last : Char} (hlast : last ≠ ' ')
    (hspaces : ∀ c ∈ spaces, c = ' ') :
    (before ++ last :: spaces).reverse.dropWhile (· = ' ') = last :: before.reverse := by
  have hall : ∀ c ∈ spaces.reverse, decide (c = ' ') = true := by
    intro c hc
    simpa using hspaces c (List.mem_reverse.mp hc)
  rw [List.reverse_append, List.reverse_cons, List.append_assoc, List.singleton_append,
    List.dropWhile_append_of_pos hall, List.dropWhile_cons_of_neg (by simpa using hlast)]

theorem cursor?_of_last {before spaces : List Char} {last : Char} (hlast : last ≠ ' ')
    (hspaces : ∀ c ∈ spaces, c = ' ') :
    cursor? (before ++ last :: spaces)
      = some (if last = '.' then Text.byteLength (before ++ [last])
          else Text.byteLength before) := by
  rw [cursor?, dropWhile_reverse_spaces hlast hspaces]
  by_cases hdot : last = '.'
  · subst hdot
    simp [Text.byteLength_append]
    rfl
  · simp [hdot]

theorem cursor?_of_blank {code : List Char} (h : ∀ c ∈ code, c = ' ') : cursor? code = none := by
  have hall : ∀ c ∈ code.reverse, decide (c = ' ') = true := by
    intro c hc
    simpa using h c (List.mem_reverse.mp hc)
  have hnil : (code.reverse ++ []).dropWhile (· = ' ') = [] :=
    List.dropWhile_append_of_pos hall
  rw [List.append_nil] at hnil
  rw [cursor?, hnil]

theorem exists_last {code : List Char} (h : ¬ ∀ c ∈ code, c = ' ') :
    ∃ before last spaces, code = before ++ last :: spaces ∧ last ≠ ' ' ∧
      ∀ c ∈ spaces, c = ' ' := by
  induction code with
  | nil => exact absurd (by simp) h
  | cons c code ih =>
      by_cases hcode : ∀ x ∈ code, x = ' '
      · refine ⟨[], c, code, rfl, fun hc => h fun x hx => ?_, hcode⟩
        rcases List.mem_cons.mp hx with rfl | hx
        · exact hc
        · exact hcode x hx
      · obtain ⟨before, last, spaces, rfl, hlast, hspaces⟩ := ih hcode
        exact ⟨c :: before, last, spaces, rfl, hlast, hspaces⟩

theorem cursorAt_cursor? (code : List Char) : CursorAt code ((cursor? code).getD 0) where
  blank h := by rw [cursor?_of_blank h]; rfl
  last before last spaces hcode hlast hspaces := by
    rw [hcode, cursor?_of_last hlast hspaces]
    rfl
  boundary := by
    by_cases h : ∀ c ∈ code, c = ' '
    · rw [cursor?_of_blank h]
      exact ⟨[], List.nil_prefix, rfl⟩
    · obtain ⟨before, last, spaces, rfl, hlast, hspaces⟩ := exists_last h
      rw [cursor?_of_last hlast hspaces, Option.getD_some]
      by_cases hdot : last = '.'
      · rw [if_pos hdot]
        exact ⟨before ++ [last], ⟨spaces, by simp⟩, rfl⟩
      · rw [if_neg hdot]
        exact ⟨before, ⟨last :: spaces, rfl⟩, rfl⟩

/-! ## One line -/

def Entry.lineNumber : Entry → Nat
  | .ok c => c.lineNumber
  | .error e => e.line

section Entries

variable {source text : String} {d : Dialect}

/-- What a line with a marker gives: a case, whatever it asks, or the fault of a conflict, with the
line from its marker on as its span. -/
inductive EntryOf (source text : String) (d : Dialect) (l : PlacedLine) (code : List Char) :
    Entry → Prop
  | case (x : Expectations) : EntryOf source text d l code (.ok (caseOf source text d l code x))
  | fault (cause : Conflict) : EntryOf source text d l code (.error
      { source, line := l.number, spanStart := l.start + Text.byteLength code
        spanLength := Text.byteLength l.chars - Text.byteLength code, cause })

theorem entryOf?_cases {l : PlacedLine} {e : Entry} (h : entryOf? source text d l = some e) :
    ∃ code rest, Cut d l.chars code rest ∧ EntryOf source text d l code e := by
  unfold entryOf? at h
  split at h
  · exact absurd h (by simp)
  · next code payload hscan =>
      obtain ⟨rest, hcut⟩ := cut_of_scan hscan
      refine ⟨code, rest, hcut, ?_⟩
      split at h
      · cases h
        exact .case _
      · cases h
        exact .fault _

theorem isSome_entryOf?_iff {l : PlacedLine} :
    (entryOf? source text d l).isSome ↔ d.marker.toList <:+: l.chars := by
  have hplain : Line.scan d l.chars = .plain ↔ ¬ d.marker.toList <:+: l.chars :=
    scan_eq_plain_iff
  rw [entryOf?]
  cases hscan : Line.scan d l.chars with
  | plain =>
      rw [hscan] at hplain
      simpa using hplain
  | annotated code payload =>
      rw [hscan] at hplain
      have hmarked : d.marker.toList <:+: l.chars := by simpa using hplain
      cases hparse : Expectations.parse payload <;> simp [hmarked, hparse]

theorem EntryOf.lineNumber_eq {l : PlacedLine} {code : List Char} {e : Entry}
    (h : EntryOf source text d l code e) : e.lineNumber = l.number := by
  cases h <;> rfl

theorem mem_entries {e : Entry} :
    e ∈ entries source text d ↔ ∃ l ∈ linesOf text.toList, entryOf? source text d l = some e :=
  List.mem_filterMap

/-! ## Cases and faults in their places -/

/-- A case stands where its fields say.  Its line is a line of the text and begins at the byte that
it names, its code is what this line holds before the marker, and its cursor is a place between two
characters of the text, within the code and where the code puts it. -/
structure CasePlaced (source text : String) (d : Dialect) (c : TestCase) : Prop where
  origin : c.source = source ∧ c.text = text ∧ c.dialect = d
  /-- The case is of a line of the text, and its code is what this line holds before its marker. -/
  line : ∃ before line rest after, IsLine text.toList c.lineNumber before line after ∧
    Cut d line c.code.toList rest ∧ Text.byteLength before = c.lineStart
  within : c.lineStart ≤ c.cursor ∧ c.cursor ≤ c.lineStart + Text.byteLength c.code.toList
  boundary : ∃ before after, text.toList = before ++ after ∧ Text.byteLength before = c.cursor
  cursor : CursorAt c.code.toList (c.cursor - c.lineStart)

/-- A fault is reported where it is: from the marker of its line to the end of the line. -/
structure FaultPlaced (source text : String) (d : Dialect) (e : LineError) : Prop where
  origin : e.source = source
  line : ∃ before line code rest after, IsLine text.toList e.line before line after ∧
    Cut d line code rest ∧ e.spanStart = Text.byteLength (before ++ code) ∧
    e.spanStart + e.spanLength = Text.byteLength (before ++ line)
  within : e.spanStart + e.spanLength ≤ Text.byteLength text.toList

theorem casePlaced_caseOf {l : PlacedLine} {code rest : List Char} (x : Expectations)
    (hl : l ∈ linesOf text.toList) (hcut : Cut d l.chars code rest) :
    CasePlaced source text d (caseOf source text d l code x) := by
  obtain ⟨before, after, hline, hstart⟩ := mem_linesOf.mp hl
  have hcursor := cursorAt_cursor? code
  obtain ⟨passed, hpassed, hoffset⟩ := hcursor.boundary
  have hcode : (caseOf source text d l code x).code.toList = code := String.toList_ofList
  have hat : (caseOf source text d l code x).cursor = l.start + Text.byteLength passed := by
    rw [hoffset]
    rfl
  obtain ⟨left, rfl⟩ := hpassed
  refine ⟨⟨rfl, rfl, rfl⟩, ?_, ?_, ?_, ?_⟩
  · rw [hcode]
    exact ⟨before, l.chars, rest, after, hline, hcut, hstart⟩
  · rw [hcode, hat, Text.byteLength_append]
    exact ⟨Nat.le_add_right _ _, by rw [← Nat.add_assoc]; exact Nat.le_add_right _ _⟩
  · refine ⟨before ++ passed, left ++ (d.marker.toList ++ rest) ++ after, ?_, ?_⟩
    · rw [hline.whole, hcut.whole]
      simp
    · rw [hat, Text.byteLength_append, hstart]
  · rw [hcode, hat, hoffset]
    have hsub : (caseOf source text d l (passed ++ left) x).lineStart = l.start := rfl
    rw [hsub, Nat.add_sub_cancel_left]
    exact hcursor

theorem casePlaced_of_mem {c : TestCase} (h : .ok c ∈ entries source text d) :
    CasePlaced source text d c := by
  obtain ⟨l, hl, he⟩ := mem_entries.mp h
  obtain ⟨code, rest, hcut, hentry⟩ := entryOf?_cases he
  cases hentry with
  | case x => exact casePlaced_caseOf x hl hcut

theorem faultPlaced_of_mem {e : LineError} (h : .error e ∈ entries source text d) :
    FaultPlaced source text d e := by
  obtain ⟨l, hl, he⟩ := mem_entries.mp h
  obtain ⟨code, rest, hcut, hentry⟩ := entryOf?_cases he
  obtain ⟨before, after, hline, hstart⟩ := mem_linesOf.mp hl
  cases hentry with
  | fault cause =>
      have hsize : Text.byteLength l.chars = Text.byteLength code
          + Text.byteLength (d.marker.toList ++ rest) := by
        rw [← Text.byteLength_append, ← hcut.whole]
      have hend : l.start + Text.byteLength code + (Text.byteLength l.chars - Text.byteLength code)
          = Text.byteLength (before ++ l.chars) := by
        rw [Text.byteLength_append, hstart]
        omega
      refine ⟨rfl, ⟨before, l.chars, code, rest, after, hline, hcut, ?_, hend⟩, ?_⟩
      · rw [Text.byteLength_append, hstart]
      · refine Nat.le_trans (Nat.le_of_eq hend) ?_
        rw [hline.whole, Text.byteLength_append (before ++ l.chars)]
        exact Nat.le_add_right _ _

/-! ## The whole fixture -/

theorem EntryOf.cursor_within {l : PlacedLine} {code rest : List Char} {c : TestCase}
    (h : EntryOf source text d l code (.ok c)) (hcut : Cut d l.chars code rest) :
    l.start ≤ c.cursor ∧ c.cursor ≤ l.start + Text.byteLength l.chars := by
  cases h with
  | case x =>
      obtain ⟨passed, ⟨left, hcode⟩, hoffset⟩ := (cursorAt_cursor? code).boundary
      have hat : (caseOf source text d l code x).cursor = l.start + Text.byteLength passed := by
        rw [hoffset]
        rfl
      have hsize : Text.byteLength l.chars = Text.byteLength passed + Text.byteLength left
          + Text.byteLength (d.marker.toList ++ rest) := by
        rw [hcut.whole, ← hcode, Text.byteLength_append, Text.byteLength_append]
      omega

/-- How an entry of a fixture and a later one lie. -/
structure Precedes (e f : Entry) : Prop where
  line : e.lineNumber < f.lineNumber
  cursor : ∀ a b, e = .ok a → f = .ok b → a.cursor < b.cursor

theorem pairwise_entries (source text : String) (d : Dialect) :
    (entries source text d).Pairwise Precedes := by
  refine List.Pairwise.filterMap _ ?_ (pairwise_linesOf text.toList)
  intro l m ⟨hnumber, hstart⟩ e he f hf
  obtain ⟨code, rest, hcut, hentry⟩ := entryOf?_cases he
  obtain ⟨code', rest', hcut', hentry'⟩ := entryOf?_cases hf
  refine ⟨?_, ?_⟩
  · rw [hentry.lineNumber_eq, hentry'.lineNumber_eq]
    exact hnumber
  · rintro a b rfl rfl
    -- the cursor of a case lies in its own line, and the lines do not meet
    have hleft := hentry.cursor_within hcut
    have hright := hentry'.cursor_within hcut'
    omega

theorem mem_lineNumbers {n : Nat} :
    n ∈ (entries source text d).map Entry.lineNumber ↔
      ∃ before line after, IsLine text.toList n before line after ∧
        d.marker.toList <:+: line := by
  rw [List.mem_map]
  constructor
  · rintro ⟨e, he, rfl⟩
    obtain ⟨l, hl, hentry⟩ := mem_entries.mp he
    obtain ⟨before, after, hline, -⟩ := mem_linesOf.mp hl
    obtain ⟨code, rest, -, hof⟩ := entryOf?_cases hentry
    have hmarked := isSome_entryOf?_iff.mp (Option.isSome_of_eq_some hentry)
    rw [hof.lineNumber_eq]
    exact ⟨before, l.chars, after, hline, hmarked⟩
  · rintro ⟨before, line, after, hline, hmarked⟩
    have hl : ⟨n, Text.byteLength before, line⟩ ∈ linesOf text.toList :=
      mem_linesOf.mpr ⟨before, after, hline, rfl⟩
    have hsome : (entryOf? source text d ⟨n, Text.byteLength before, line⟩).isSome :=
      isSome_entryOf?_iff.mpr hmarked
    obtain ⟨e, he⟩ := Option.isSome_iff_exists.mp hsome
    obtain ⟨code, rest, -, hof⟩ := entryOf?_cases he
    exact ⟨e, mem_entries.mpr ⟨_, hl, he⟩, hof.lineNumber_eq⟩

/-- **Extraction gives one entry for each line with a marker, and every offset is exact.**  The
entries are those of the lines that hold a marker, in the order of the lines, one for each; every
case and every fault stands where it says; and the cursors of the cases increase. -/
theorem entries_exact (source text : String) (d : Dialect) :
    (∀ n, n ∈ (entries source text d).map Entry.lineNumber ↔
      ∃ before line after, IsLine text.toList n before line after ∧
        d.marker.toList <:+: line) ∧
    ((entries source text d).map Entry.lineNumber).Pairwise (· < ·) ∧
    (∀ c, .ok c ∈ entries source text d → CasePlaced source text d c) ∧
    (∀ e, .error e ∈ entries source text d → FaultPlaced source text d e) ∧
    (casesOf (entries source text d)).Pairwise fun a b => a.cursor < b.cursor := by
  have hordered := pairwise_entries source text d
  refine ⟨fun n => mem_lineNumbers, ?_, fun c => casePlaced_of_mem, fun e => faultPlaced_of_mem, ?_⟩
  · exact hordered.map _ fun e f h => h.line
  · refine hordered.filterMap _ fun e f h a ha b hb => ?_
    cases e with
    | error => exact absurd ha (by simp)
    | ok a' =>
        cases f with
        | error => exact absurd hb (by simp)
        | ok b' =>
            cases ha
            cases hb
            exact h.cursor _ _ rfl rfl

/-- A fault in the third line moves nothing in the fourth. -/
example : (entries "f.ts" "é = 1\r\n\nx. // y; !y\ncafé.  // z" .typeScript).map
    (fun e => match e with
      | .ok c => (c.lineNumber, c.lineStart, c.cursor)
      | .error e => (e.line, e.spanStart, e.spanStart + e.spanLength))
    = [(3, 12, 20), (4, 21, 27)] := by rfl

end Entries

end CompletionCheck.Fixture
