import CompletionCheck.Proofs.Fixture.Extraction
import Mathlib.Data.List.Basic

/-!
# Extraction is local

The offsets of a fixture are sums over all lines that came before, faulty lines among them, so an
entry might depend on more than its own line.  It does not: what an entry takes from the lines
before it is how many they are and how many bytes they have, and from the rest of the fixture
nothing but the text that every case carries along.

Both are said by moving entries.  `Entry.moved` puts an entry some lines and bytes further down, and
`Entry.within` gives its case another text to carry.  A fixture joined from two texts has the
entries of the first and, moved behind it, those of the second (`entries_joined`); and a line that
makes room for another of the same length changes no entry but its own (`entries_swapped`).
Both rest on the lines: those of joined texts are placed one behind the other (`linesOf_joined`),
and a line that is moved gives its entry moved (`entryOf?_moved`).
-/

namespace CompletionCheck.Fixture

/-! ## Moving lines and entries -/

/-- A line, some lines and bytes further down. -/
def PlacedLine.moved (lines bytes : Nat) (l : PlacedLine) : PlacedLine :=
  ⟨l.number + lines, l.start + bytes, l.chars⟩

/-- An entry, some lines and bytes further down. -/
def Entry.moved (lines bytes : Nat) : Entry → Entry
  | .ok c => .ok
      { c with
        lineNumber := c.lineNumber + lines
        lineStart := c.lineStart + bytes
        cursor := c.cursor + bytes }
  | .error e => .error { e with line := e.line + lines, spanStart := e.spanStart + bytes }

/-- An entry of the same line in a fixture with another text. -/
def Entry.within (text : String) : Entry → Entry
  | .ok c => .ok { c with text }
  | .error e => .error e

theorem Entry.moved_within (text : String) (lines bytes : Nat) (e : Entry) :
    (e.within text).moved lines bytes = (e.moved lines bytes).within text := by
  cases e <;> rfl

theorem placeLines_append (xs ys : List (List Char)) : ∀ number start : Nat,
    placeLines number start (xs ++ ys) = placeLines number start xs
      ++ placeLines (number + xs.length) (start + Text.byteLength (ended xs)) ys := by
  induction xs with
  | nil => intro number start; rfl
  | cons x xs ih =>
      intro number start
      rw [List.cons_append, placeLines, ih, placeLines, List.cons_append, List.length_cons,
        byteLength_ended_cons]
      have hnumber : number + 1 + xs.length = number + (xs.length + 1) := by omega
      have hstart : start + Text.byteLength x + 1 + Text.byteLength (ended xs)
          = start + (Text.byteLength x + 1 + Text.byteLength (ended xs)) := by omega
      rw [hnumber, hstart]

theorem placeLines_moved (lines bytes : Nat) (xs : List (List Char)) : ∀ number start : Nat,
    placeLines (number + lines) (start + bytes) xs
      = (placeLines number start xs).map (PlacedLine.moved lines bytes) := by
  induction xs with
  | nil => intro number start; rfl
  | cons x xs ih =>
      intro number start
      have hnumber : number + lines + 1 = number + 1 + lines := by omega
      have hstart : start + bytes + Text.byteLength x + 1
          = start + Text.byteLength x + 1 + bytes := by omega
      rw [placeLines, placeLines, List.map_cons, hnumber, hstart, ih]
      rfl

/-- The lines of a text, a line feed and another text are those of the two, the later ones moved
behind the earlier ones. -/
theorem linesOf_joined (first second : List Char) :
    linesOf (first ++ '\n' :: second) = linesOf first ++ (linesOf second).map
      (PlacedLine.moved (first.count '\n' + 1) (Text.byteLength first + 1)) := by
  have hbytes : Text.byteLength (ended (first.splitOn '\n')) = Text.byteLength first + 1 := by
    rw [ended_splitOn, Text.byteLength_append]
    rfl
  rw [linesOf, linesOf, linesOf, List.splitOn_append_cons_self, placeLines_append, hbytes,
    Text.length_splitOn, placeLines_moved]

section Entries

variable {source text : String} {d : Dialect}

/-! ## One line -/

theorem entryOf?_within (text other : String) (l : PlacedLine) :
    entryOf? source other d l = (entryOf? source text d l).map (Entry.within other) := by
  unfold entryOf?
  cases Line.scan d l.chars with
  | plain => rfl
  | annotated code payload =>
      dsimp only
      cases Expectations.parse payload with
      | ok e => rfl
      | error cause => rfl

theorem entryOf?_moved (lines bytes : Nat) (l : PlacedLine) :
    entryOf? source text d (l.moved lines bytes)
      = (entryOf? source text d l).map (Entry.moved lines bytes) := by
  have hchars : (l.moved lines bytes).chars = l.chars := rfl
  unfold entryOf?
  rw [hchars]
  cases Line.scan d l.chars with
  | plain => rfl
  | annotated code payload =>
      dsimp only
      cases Expectations.parse payload with
      | ok e =>
          simp only [Option.map_some, Entry.moved, caseOf, PlacedLine.moved, Nat.add_right_comm]
      | error cause =>
          simp only [Option.map_some, Entry.moved, PlacedLine.moved, Nat.add_right_comm]

theorem filterMap_within (text other : String) (ls : List PlacedLine) :
    ls.filterMap (entryOf? source other d)
      = (ls.filterMap (entryOf? source text d)).map (Entry.within other) := by
  rw [List.map_filterMap]
  exact List.filterMap_congr fun l _ => entryOf?_within text other l

theorem filterMap_moved (lines bytes : Nat) (ls : List PlacedLine) :
    (ls.map (PlacedLine.moved lines bytes)).filterMap (entryOf? source text d)
      = (ls.filterMap (entryOf? source text d)).map (Entry.moved lines bytes) := by
  rw [List.map_filterMap, List.filterMap_map]
  exact List.filterMap_congr fun l _ => entryOf?_moved lines bytes l

/-! ## Joined texts -/

theorem entries_joined (source : String) (d : Dialect) (first second : String) :
    let whole := first ++ "\n" ++ second
    entries source whole d = (entries source first d).map (Entry.within whole)
      ++ (entries source second d).map fun e =>
        (e.moved (first.toList.count '\n' + 1) (Text.byteLength first.toList + 1)).within whole := by
  intro whole
  have htext : whole.toList = first.toList ++ '\n' :: second.toList := by
    simp [whole, String.toList_append]
  calc entries source whole d
      = (linesOf first.toList).filterMap (entryOf? source whole d)
        ++ ((linesOf second.toList).filterMap (entryOf? source whole d)).map
          (Entry.moved (first.toList.count '\n' + 1) (Text.byteLength first.toList + 1)) := by
        rw [entries, htext, linesOf_joined, List.filterMap_append, filterMap_moved]
    _ = (entries source first d).map (Entry.within whole)
        ++ ((entries source second d).map (Entry.within whole)).map
          (Entry.moved (first.toList.count '\n' + 1) (Text.byteLength first.toList + 1)) := by
        rw [filterMap_within first whole, filterMap_within second whole]
        rfl
    _ = _ := by
        rw [List.map_map]
        congr 1
        exact List.map_congr_left fun e _ => e.moved_within whole _ _

/-! ## Notices -/

/-- The line of an entry, if its case has nothing before the marker. -/
def Entry.blankLine? : Entry → Option Nat
  | .ok c => if c.code.toList.all (· = ' ') then some c.lineNumber else none
  | .error _ => none

/-- The lines with nothing before their marker, in their order. -/
def blankLines (es : List Entry) : List Nat :=
  es.filterMap Entry.blankLine?

def blankNotice (source : String) (line : Nat) : Notice :=
  .warn (source ++ ":" ++ toString line ++
    ": no code before the annotation marker; cursor placed at line start")

theorem Entry.blankLine?_within (e : Entry) : (e.within text).blankLine? = e.blankLine? := by
  cases e <;> rfl

theorem Entry.blankLine?_moved (lines bytes : Nat) (e : Entry) :
    (e.moved lines bytes).blankLine? = e.blankLine?.map (· + lines) := by
  cases e with
  | ok c =>
      simp only [Entry.moved, Entry.blankLine?]
      split <;> rfl
  | error e => rfl

theorem notices_entries (source text : String) (d : Dialect) :
    notices (entries source text d)
      = (blankLines (entries source text d)).map (blankNotice source) := by
  rw [notices, casesOf, blankLines, List.filterMap_filterMap, List.map_filterMap]
  refine List.filterMap_congr fun e he => ?_
  cases e with
  | error e => rfl
  | ok c =>
      have hsource : c.source = source := (casePlaced_of_mem he).origin.1
      simp only [Option.bind_some, Entry.blankLine?, blankCodeNotice?, hsource]
      split <;> rfl

theorem blankLines_joined (source : String) (d : Dialect) (first second : String) :
    blankLines (entries source (first ++ "\n" ++ second) d)
      = blankLines (entries source first d)
        ++ (blankLines (entries source second d)).map (· + (first.toList.count '\n' + 1)) := by
  rw [entries_joined, blankLines, blankLines, blankLines, List.filterMap_append,
    List.filterMap_map, List.filterMap_map, List.map_filterMap]
  congr 1
  · exact List.filterMap_congr fun e _ => e.blankLine?_within
  · refine List.filterMap_congr fun e _ => ?_
    rw [Function.comp_apply, Entry.blankLine?_within, Entry.blankLine?_moved]

/-! ## One line in the place of another -/

/-- A line in its place splits the lines of its text into the earlier and the later ones, and these
are the same for every line of its length. -/
theorem exists_linesOf_around {before after : List Char}
    (hopens : before = [] ∨ ∃ earlier, before = earlier ++ ['\n'])
    (hcloses : after = [] ∨ ∃ later, after = '\n' :: later) (length : Nat) :
    ∃ earlier later, ∀ line, '\n' ∉ line → Text.byteLength line = length →
      linesOf (before ++ line ++ after)
        = earlier ++ ⟨before.count '\n' + 1, Text.byteLength before, line⟩ :: later := by
  obtain ⟨xs, ys, hbefore, hcount, hcut⟩ := exists_splitOn_around hopens hcloses
  refine ⟨placeLines 1 0 xs, placeLines (before.count '\n' + 1 + 1)
    (Text.byteLength before + length + 1) ys, fun line hline hlength => ?_⟩
  rw [linesOf, hcut line hline, placeLines_append, placeLines, hcount, ← hbefore, hlength,
    Nat.zero_add, Nat.add_comm 1]

theorem filterMap_around (earlier later : List PlacedLine) (l : PlacedLine) :
    (earlier ++ l :: later).filterMap (entryOf? source text d)
      = earlier.filterMap (entryOf? source text d) ++ (entryOf? source text d l).toList
        ++ later.filterMap (entryOf? source text d) := by
  rw [List.filterMap_append, List.filterMap_cons]
  cases entryOf? source text d l <;> simp

theorem exists_line_of_mem {ls : List PlacedLine} {e : Entry}
    (h : e ∈ ls.filterMap (entryOf? source text d)) : ∃ l ∈ ls, e.lineNumber = l.number := by
  obtain ⟨l, hl, hentry⟩ := List.mem_filterMap.mp h
  obtain ⟨code, rest, -, hof⟩ := entryOf?_cases hentry
  exact ⟨l, hl, hof.lineNumber_eq⟩

/-- A line that makes room for another of the same length takes no entry with it but its own. -/
theorem entries_swapped (source : String) (d : Dialect) {text : String} {n : Nat}
    {before line after other : List Char} (hline : IsLine text.toList n before line after)
    (hother : '\n' ∉ other) (hlength : Text.byteLength other = Text.byteLength line) :
    let swapped := String.ofList (before ++ other ++ after)
    ∃ above below : List Entry,
      (∀ e ∈ above, e.lineNumber < n) ∧ (∀ e ∈ below, n < e.lineNumber) ∧
      entries source text d = above
        ++ (entryOf? source text d ⟨n, Text.byteLength before, line⟩).toList ++ below ∧
      entries source swapped d = above.map (Entry.within swapped)
        ++ (entryOf? source swapped d ⟨n, Text.byteLength before, other⟩).toList
        ++ below.map (Entry.within swapped) := by
  intro swapped
  obtain ⟨earlier, later, hlines⟩ :=
    exists_linesOf_around hline.opens hline.closes (Text.byteLength line)
  have hold := hlines line hline.unbroken rfl
  have hnew := hlines other hother hlength
  rw [← hline.whole, ← hline.number] at hold
  rw [← hline.number] at hnew
  have hordered := pairwise_linesOf text.toList
  rw [hold, List.pairwise_append, List.pairwise_cons] at hordered
  obtain ⟨-, ⟨hbelow, -⟩, habove⟩ := hordered
  refine ⟨earlier.filterMap (entryOf? source text d), later.filterMap (entryOf? source text d),
    fun e he => ?_, fun e he => ?_, ?_, ?_⟩
  · obtain ⟨l, hl, hnumber⟩ := exists_line_of_mem he
    rw [hnumber]
    exact (habove l hl _ List.mem_cons_self).1
  · obtain ⟨l, hl, hnumber⟩ := exists_line_of_mem he
    rw [hnumber]
    exact (hbelow l hl).1
  · rw [entries, hold, filterMap_around]
  · rw [entries, String.toList_ofList, hnew, filterMap_around, filterMap_within text swapped earlier,
      filterMap_within text swapped later]

/-- **Extraction is local.**  A fixture joined from two texts has the entries of the first, then
those of the second as many lines and bytes further down as the first has, with the notices of the
first and then those of the second.  A line replaced by another of the same length changes no entry
but its own. -/
theorem entries_local (source : String) (d : Dialect) :
    (∀ first second : String,
      let whole := first ++ "\n" ++ second
      let lines := first.toList.count '\n' + 1
      let bytes := Text.byteLength first.toList + 1
      entries source whole d = (entries source first d).map (Entry.within whole)
        ++ (entries source second d).map (fun e => (e.moved lines bytes).within whole) ∧
      notices (entries source whole d) = notices (entries source first d)
        ++ (blankLines (entries source second d)).map (blankNotice source <| · + lines)) ∧
    (∀ text, notices (entries source text d)
      = (blankLines (entries source text d)).map (blankNotice source)) ∧
    ∀ text n before line after other, IsLine text.toList n before line after → '\n' ∉ other →
      Text.byteLength other = Text.byteLength line →
      let swapped := String.ofList (before ++ other ++ after)
      ∃ above below : List Entry,
        (∀ e ∈ above, e.lineNumber < n) ∧ (∀ e ∈ below, n < e.lineNumber) ∧
        entries source text d = above
          ++ (entryOf? source text d ⟨n, Text.byteLength before, line⟩).toList ++ below ∧
        entries source swapped d = above.map (Entry.within swapped)
          ++ (entryOf? source swapped d ⟨n, Text.byteLength before, other⟩).toList
          ++ below.map (Entry.within swapped) := by
  refine ⟨fun first second => ⟨entries_joined source d first second, ?_⟩,
    fun text => notices_entries source text d,
    fun text n before line after other hline hother hlength =>
      entries_swapped source d hline hother hlength⟩
  rw [notices_entries, notices_entries, blankLines_joined, List.map_append, List.map_map]
  rfl

/-- When its second line comes to be in conflict with itself, the entries of a fixture around it
stay. -/
theorem entries_local_conflict :
    let text := "a. // x\nb.y // y; z\n // é"
    let swapped := "a. // x\nb. // y; !y\n // é"
    IsLine text.toList 2 "a. // x\n".toList "b.y // y; z".toList "\n // é".toList ∧
    entryOf? "f.ts" swapped .typeScript ⟨2, 8, "b. // y; !y".toList⟩
      = some (.error ⟨"f.ts", 2, 11, 8, ⟨"y"⟩⟩) ∧
    ∃ above below : List Entry,
      (∀ e ∈ above, e.lineNumber < 2) ∧ (∀ e ∈ below, 2 < e.lineNumber) ∧
      entries "f.ts" text .typeScript = above
        ++ (entryOf? "f.ts" text .typeScript ⟨2, 8, "b.y // y; z".toList⟩).toList ++ below ∧
      entries "f.ts" swapped .typeScript = above.map (Entry.within swapped)
        ++ [.error ⟨"f.ts", 2, 11, 8, ⟨"y"⟩⟩] ++ below.map (Entry.within swapped) := by
  intro text swapped
  have hline : IsLine text.toList 2 "a. // x\n".toList "b.y // y; z".toList "\n // é".toList :=
    ⟨by decide +kernel, by decide +kernel, .inr ⟨"a. // x".toList, by decide +kernel⟩,
      .inr ⟨" // é".toList, by decide +kernel⟩, by decide +kernel⟩
  have hentry : entryOf? "f.ts" swapped .typeScript ⟨2, 8, "b. // y; !y".toList⟩
      = some (.error ⟨"f.ts", 2, 11, 8, ⟨"y"⟩⟩) := by decide +kernel
  have hswapped : String.ofList ("a. // x\n".toList ++ "b. // y; !y".toList ++ "\n // é".toList)
      = swapped := by decide +kernel
  obtain ⟨above, below, habove, hbelow, hold, hnew⟩ :=
    (entries_local "f.ts" .typeScript).2.2 text 2 _ _ _ "b. // y; !y".toList hline
      (by decide +kernel) (by decide +kernel)
  have hstart : Text.byteLength "a. // x\n".toList = 8 := by decide +kernel
  rw [hstart] at hold hnew
  rw [hswapped, hentry] at hnew
  exact ⟨hline, hentry, above, below, habove, hbelow, hold, hnew⟩

end Entries

end CompletionCheck.Fixture
