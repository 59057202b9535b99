import CompletionCheck.Lsp.LineTable
import CompletionCheck.Proofs.Lsp.Position

/-!
# The table of lines never fails

A table of lines gives what a walk over the text gives, and none of its steps runs into a fault:
`position_ofText` and `offset_ofText`.  Three facts carry this.

* The entries are the bytes at which lines begin, said by `IsLine` and not by the bytes that were
  searched (`getElem?_starts`).  A line feed is a byte of no other character, so searching bytes
  finds no line that the text does not have.
* The entries increase and the first of them is zero.  So halving ends at the last entry that is not
  above a byte, and there is always an entry before the place where a byte is missing
  (`lineOf_ofText`).
* A stretch between two places of a text is cut out without splitting a character (`slice_append`).

The length of the text matters in one place only: a position has 32 bits for its line and 32 for its
column, and a text with fewer bytes has neither more lines nor longer ones.

A session asks for the position that the walk finds.  For texts of that length the question is the
one that a session with a table would ask, number for number: `Session.written_ask_of_table`.
-/

namespace CompletionCheck.Lsp.LineTable

open Fixture (IsLine PlacedLine placeLines linesOf)

/-! ## The entries of the table -/

theorem newline_not_mem_utf8EncodeChar {c : Char} (h : c ≠ '\n') :
    10 ∉ String.utf8EncodeChar c := by
  have hvalue : c.val.toNat ≠ 10 := fun heq => h (Char.ext (UInt32.toNat_inj.mp heq))
  have hmax : c.val.toNat < 0x110000 := by
    rcases c.valid with h | h <;> omega
  unfold String.utf8EncodeChar
  dsimp only
  repeat' split
  all_goals simp only [List.mem_cons, List.not_mem_nil, or_false, ← UInt8.toNat_inj,
    UInt8.toNat_ofNat']
  all_goals
    have hten : (10 : UInt8).toNat = 10 := rfl
    omega

theorem startsFrom_append {front : List UInt8} (h : 10 ∉ front) (rest : List UInt8) :
    ∀ start : Nat, startsFrom start (front ++ rest) = startsFrom (start + front.length) rest := by
  induction front with
  | nil => intro start; rfl
  | cons b front ih =>
      intro start
      have hb : b ≠ 10 := (List.ne_of_not_mem_cons h).symm
      rw [List.cons_append, startsFrom, if_neg hb, ih (List.not_mem_of_not_mem_cons h),
        List.length_cons, Nat.add_assoc, Nat.add_comm 1]

theorem map_start_placeLines (text : List Char) : ∀ number start : Nat,
    (placeLines number start (text.splitOn '\n')).map PlacedLine.start
      = start :: startsFrom start (Text.encode text) := by
  induction text with
  | nil => intro number start; rfl
  | cons c text ih =>
      intro number start
      rw [List.splitOn_cons_eq_if_modifyHead, Text.encode_cons]
      by_cases hc : c = '\n'
      · subst hc
        have hfeed : String.utf8EncodeChar '\n' = [10] := by decide
        rw [if_pos (by decide), placeLines, List.map_cons, hfeed, List.singleton_append, startsFrom,
          if_pos rfl, Text.byteLength_nil, Nat.add_zero, ih]
      · rw [if_neg (by simpa using hc), startsFrom_append (newline_not_mem_utf8EncodeChar hc),
          String.length_utf8EncodeChar]
        obtain ⟨first, others, hcut⟩ := List.exists_cons_of_ne_nil (List.splitOn_ne_nil '\n' text)
        have hlater := ih number (start + c.utf8Size)
        rw [hcut, placeLines, List.map_cons] at hlater
        rw [hcut, List.modifyHead_cons, placeLines, List.map_cons, Text.byteLength_cons,
          ← Nat.add_assoc, (List.cons.inj hlater).2]

/-- The entries of the table are the bytes at which the lines begin. -/
theorem starts_ofText (text : List Char) :
    (ofText text).starts = ((linesOf text).map PlacedLine.start).toArray := by
  rw [linesOf, map_start_placeLines]
  rfl

theorem getElem?_starts {text : List Char} {i s : Nat} :
    (ofText text).starts[i]? = some s ↔
      ∃ before line after, IsLine text (i + 1) before line after ∧ Text.byteLength before = s := by
  rw [starts_ofText, List.getElem?_toArray, List.getElem?_map, Option.map_eq_some_iff]
  constructor
  · rintro ⟨l, hl, rfl⟩
    obtain ⟨hmem, hnumber⟩ := Fixture.getElem?_linesOf.mp hl
    obtain ⟨before, after, hline, hstart⟩ := Fixture.mem_linesOf.mp hmem
    rw [hnumber] at hline
    exact ⟨before, l.chars, after, hline, hstart⟩
  · rintro ⟨before, line, after, hline, rfl⟩
    exact ⟨⟨i + 1, Text.byteLength before, line⟩, Fixture.getElem?_linesOf.mpr
      ⟨Fixture.mem_linesOf.mpr ⟨before, after, hline, rfl⟩, rfl⟩, rfl⟩

theorem getElem?_starts_following {text before line later : List Char} {i : Nat}
    (h : IsLine text (i + 1) before line ('\n' :: later)) :
    (ofText text).starts[i + 1]? = some (Text.byteLength (before ++ line) + 1) := by
  obtain ⟨next, after, hnext⟩ := h.following
  refine getElem?_starts.mpr ⟨_, next, after, hnext, ?_⟩
  rw [Text.byteLength_append]
  rfl

theorem getElem?_starts_last {text before line : List Char} {i : Nat}
    (h : IsLine text (i + 1) before line []) : (ofText text).starts[i + 1]? = none := by
  refine Option.eq_none_iff_forall_ne_some.mpr fun s hs => ?_
  obtain ⟨before', line', after', hnext, -⟩ := getElem?_starts.mp hs
  -- a next line would need another line feed
  have hfeeds := Fixture.exists_isLine_iff.mp ⟨before', line', after', hnext⟩
  rw [h.whole, List.append_nil, List.count_append, List.count_eq_zero.mpr h.unbroken] at hfeeds
  have hnumber := h.number
  omega

/-! ## Cutting -/

theorem dropBytes_append (front rest : List Char) :
    dropBytes (Text.byteLength front) (front ++ rest) = .ok rest := by
  induction front with
  | nil => cases rest <;> rfl
  | cons c front ih => rw [Text.byteLength_cons, List.cons_append, dropBytes_cons, ih]

theorem takeBytes_append (front rest : List Char) :
    takeBytes (Text.byteLength front) (front ++ rest) = .ok front := by
  induction front with
  | nil => cases rest <;> rfl
  | cons c front ih =>
      rw [Text.byteLength_cons, List.cons_append, takeBytes_cons, ih]
      rfl

theorem slice_append (front middle back : List Char) :
    slice (front ++ middle ++ back) (Text.byteLength front) (Text.byteLength (front ++ middle))
      = .ok middle := by
  rw [slice, if_neg (by rw [Text.byteLength_append]; omega), List.append_assoc, dropBytes_append,
    Text.byteLength_append, Nat.add_sub_cancel_left]
  exact takeBytes_append middle back

theorem slice_rest (front rest : List Char) :
    slice (front ++ rest) (Text.byteLength front) (Text.byteLength (front ++ rest)) = .ok rest := by
  have hslice := slice_append front rest []
  rw [List.append_nil] at hslice
  exact hslice

/-! ## Halving -/

/-- Entries that grow from one to the next. -/
def Increasing (entries : Array Nat) : Prop :=
  ∀ i j (hi : i < entries.size) (hj : j < entries.size), i < j → entries[i] < entries[j]

/-- The last entry that is not above a number. -/
structure LastAt (entries : Array Nat) (number : Nat) (i : Fin entries.size) : Prop where
  low : entries[i] ≤ number
  high : ∀ j (hj : j < entries.size), i.1 < j → number < entries[j]

theorem lastAt_narrow {entries : Array Nat} (hsorted : Increasing entries) {number : Nat}
    (base size : Nat) (nonempty : 0 < size) (fits : base + size ≤ entries.size)
    (hlow : entries[base] ≤ number)
    (hhigh : ∀ j (hj : j < entries.size), base + size ≤ j → number < entries[j]) :
    LastAt entries number (narrow entries number base size nonempty fits) := by
  fun_induction narrow entries number base size nonempty fits with
  | case1 base nonempty fits => exact ⟨hlow, fun j hj hlt => hhigh j hj hlt⟩
  | case2 base size nonempty fits single hbelow ih =>
      refine ih hlow fun j hj hle => ?_
      rcases Nat.eq_or_lt_of_le (show base + size / 2 ≤ j by omega) with rfl | hlt
      · exact hbelow
      · exact Nat.lt_trans hbelow (hsorted _ j _ hj hlt)
  | case3 base size nonempty fits single habove ih =>
      exact ih (Nat.le_of_not_lt habove) fun j hj hle => hhigh j hj (by omega)

/-- The search finds the last entry that is not above the number, or the place behind it. -/
theorem search_cases {entries : Array Nat} (hsorted : Increasing entries) {number : Nat}
    (nonempty : 0 < entries.size) (hfirst : entries[0] ≤ number) :
    ∃ i : Fin entries.size, LastAt entries number i ∧
      (search entries number = .found i ∨ search entries number = .missing (i + 1)) := by
  have hlast := lastAt_narrow hsorted 0 entries.size nonempty (Nat.le_of_eq (Nat.zero_add _)) hfirst
    fun j hj hle => by omega
  refine ⟨_, hlast, ?_⟩
  unfold search
  rw [dif_pos nonempty]
  dsimp only
  split
  · exact .inl rfl
  · next hne => exact .inr (if_pos (Nat.lt_of_le_of_ne hlast.low hne))

theorem increasing_starts (text : List Char) : Increasing (ofText text).starts := by
  have hordered : ((linesOf text).map PlacedLine.start).Pairwise (· < ·) :=
    (Fixture.pairwise_linesOf text).map _ fun l m h => by omega
  rw [starts_ofText]
  intro i j hi hj hlt
  exact List.pairwise_iff_getElem.mp hordered i j hi hj hlt

/-- A byte of a text is in the last line that does not begin behind it. -/
theorem lineOf_ofText {text : List Char} {byte : Nat} (h : byte ≤ Text.byteLength text) :
    ∃ i before line after, (ofText text).lineOf byte = .ok i ∧
      IsLine text (i + 1) before line after ∧ Text.byteLength before ≤ byte ∧
      byte ≤ Text.byteLength before + Text.byteLength line := by
  have hnonempty : 0 < (ofText text).starts.size := by simp [ofText]
  have hfirst : (ofText text).starts[0] ≤ byte := Nat.zero_le byte
  obtain ⟨i, hlast, hplace⟩ := search_cases (increasing_starts text) hnonempty hfirst
  obtain ⟨before, line, after, hline, hstart⟩ :=
    getElem?_starts.mp (Array.getElem?_eq_getElem i.isLt)
  refine ⟨i, before, line, after, ?_, hline, Nat.le_trans (Nat.le_of_eq hstart) hlast.low, ?_⟩
  · unfold lineOf
    rcases hplace with hplace | hplace <;> rw [hplace]
    rfl
  · rw [← Text.byteLength_append]
    obtain rfl | ⟨later, rfl⟩ := hline.closes
    · rw [hline.whole, List.append_nil] at h
      exact h
    · obtain ⟨hbound, hnext⟩ :=
        Array.getElem?_eq_some_iff.mp (getElem?_starts_following hline)
      have hbehind := hlast.high _ hbound (Nat.lt_succ_self _)
      omega

/-! ## Agreement with the walk -/

theorem start_ofText {text before line after : List Char} {i : Nat}
    (h : IsLine text (i + 1) before line after) :
    (ofText text).start i = .ok (Text.byteLength before) := by
  rw [start, getElem?_starts.mpr ⟨before, line, after, h, rfl⟩]

theorem stop_ofText {text before line after : List Char} {i : Nat}
    (h : IsLine text (i + 1) before line after) :
    (ofText text).stop i = .ok (Text.byteLength (before ++ line)) := by
  rw [stop]
  obtain rfl | ⟨later, rfl⟩ := h.closes
  · rw [getElem?_starts_last h]
    have hwhole := h.whole
    rw [List.append_nil] at hwhole
    rw [← hwhole]
    rfl
  · rw [getElem?_starts_following h]
    rfl

theorem advance_of_within {line : List Char} (h : '\n' ∉ line) (offset : Nat) (after : List Char) :
    ∀ {p : Position} {start : Nat}, offset ≤ start + Text.byteLength line →
      Position.advance offset p start (line ++ after)
        = ⟨p.line, p.character + unitsBefore offset start (line ++ after)⟩ := by
  induction line with
  | nil =>
      intro p start hle
      rw [Text.byteLength_nil, Nat.add_zero] at hle
      rw [List.nil_append, Position.advance_of_le hle]
      cases after with
      | nil => rfl
      | cons c after => rw [unitsBefore, if_neg (Nat.not_lt.mpr hle)]; rfl
  | cons c line ih =>
      intro p start hle
      have hc : c ≠ '\n' := (List.ne_of_not_mem_cons h).symm
      rw [Text.byteLength_cons, ← Nat.add_assoc] at hle
      rw [List.cons_append, Position.advance, unitsBefore]
      split
      · rw [ih (List.not_mem_of_not_mem_cons h) hle, Position.after, if_neg hc, Nat.add_assoc]
      · rfl

theorem byteOfColumn_eq {line after : List Char} (h : '\n' ∉ line)
    (hcloses : after = [] ∨ ∃ later, after = '\n' :: later) (character : Nat) :
    ∀ units start : Nat, byteOfColumn character units start (start + Text.byteLength line) line
      = Position.seekColumn character units start (line ++ after) := by
  induction line with
  | nil =>
      intro units start
      obtain rfl | ⟨later, rfl⟩ := hcloses
      · rfl
      · simp [byteOfColumn, Position.seekColumn]
  | cons c line ih =>
      intro units start
      have hc : c ≠ '\n' := (List.ne_of_not_mem_cons h).symm
      rw [byteOfColumn, List.cons_append, Position.seekColumn, Text.byteLength_cons,
        ← Nat.add_assoc, ih (List.not_mem_of_not_mem_cons h)]
      simp [hc]

theorem unitsBefore_le (offset : Nat) (cs : List Char) : ∀ start : Nat,
    unitsBefore offset start cs ≤ Text.byteLength cs := by
  induction cs with
  | nil => intro start; exact Nat.le_refl 0
  | cons c cs ih =>
      intro start
      have hunits := Position.units_le_utf8Size c
      have hlater := ih (start + c.utf8Size)
      rw [unitsBefore, Text.byteLength_cons]
      split <;> omega

theorem ofOffset_of_isLine {text before line after : List Char} {i byte : Nat}
    (h : IsLine text (i + 1) before line after) (hstart : Text.byteLength before ≤ byte)
    (hstop : byte ≤ Text.byteLength before + Text.byteLength line) :
    Position.ofOffset text byte
      = ⟨i, unitsBefore byte (Text.byteLength before) (line ++ after)⟩ := by
  have hnumber : i = before.count '\n' := Nat.succ.inj h.number
  rw [Position.ofOffset, h.whole, List.append_assoc, Position.advance_append (by omega),
    Nat.zero_add, Position.foldl_after_of_opens h.opens,
    advance_of_within h.unbroken _ _ hstop, ← hnumber, Nat.zero_add]

theorem word_of_lt {n : Nat} (h : n < 0x100000000) : word n = n :=
  Nat.mod_eq_of_lt h

theorem word_lt (n : Nat) : word n < 0x100000000 :=
  Nat.mod_lt n (by decide)

/-- What a table gives has 32 bits, also when the text is too long for it to be right. -/
theorem lt_of_position {t : LineTable} {offset : Nat} {p : Position}
    (h : t.position offset = .ok p) : p.line < 0x100000000 ∧ p.character < 0x100000000 := by
  simp only [position, bind, Except.bind] at h
  split at h
  · cases h
  · split at h
    · cases h
    · split at h
      · cases h
      · cases h
        exact ⟨word_lt _, word_lt _⟩

/-- **The table finds the positions that the walk finds, and never fails.** -/
theorem position_ofText {text : List Char} (hsize : Text.byteLength text < 0x100000000)
    (offset : Nat) : (ofText text).position offset = .ok (Position.ofOffset text offset) := by
  rw [← Position.ofOffset_min]
  unfold position
  have htext : (ofText text).text = text := rfl
  rw [htext]
  generalize hbyte : min offset (Text.byteLength text) = byte
  have hle : byte ≤ Text.byteLength text := by omega
  obtain ⟨i, before, line, after, hlineOf, hline, hstart, hstop⟩ := lineOf_ofText hle
  have hwhole : text = before ++ (line ++ after) := by rw [hline.whole, List.append_assoc]
  have hslice := slice_rest before (line ++ after)
  rw [← hwhole] at hslice
  have hsum : Text.byteLength text = Text.byteLength before + Text.byteLength (line ++ after) := by
    rw [hwhole, Text.byteLength_append]
  -- a line and a column are at most as large as the text
  have hfeeds := Position.count_le_byteLength '\n' before
  have hnumber : i = before.count '\n' := Nat.succ.inj hline.number
  have hunits := unitsBefore_le byte (line ++ after) (Text.byteLength before)
  simp only [hlineOf, start_ofText hline, hslice, bind, Except.bind, pure, Except.pure]
  rw [word_of_lt (by omega), word_of_lt (by omega), ofOffset_of_isLine hline hstart hstop]

/-- **The table finds the bytes that the walk finds, and never fails.** -/
theorem offset_ofText (text : List Char) (p : Position) :
    (ofText text).offset p = .ok (Position.toOffset text p) := by
  have htext : (ofText text).text = text := rfl
  cases hstart : (ofText text).starts[p.line]? with
  | none =>
      have hpast : text.count '\n' < p.line := by
        refine Nat.lt_of_not_le fun hle => ?_
        obtain ⟨before, line, after, hline⟩ := Fixture.exists_isLine_iff.mpr hle
        have hsome := getElem?_starts.mpr ⟨before, line, after, hline, rfl⟩
        rw [hstart] at hsome
        cases hsome
      rw [offset, hstart, Position.toOffset_past hpast]
      rfl
  | some s =>
      obtain ⟨before, line, after, hline, rfl⟩ := getElem?_starts.mp hstart
      have hslice := slice_append before line after
      rw [← hline.whole] at hslice
      rw [offset, hstart]
      simp only [htext, stop_ofText hline, hslice, bind, Except.bind, pure, Except.pure]
      rw [Position.toOffset_of_isLine hline, Text.byteLength_append,
        byteOfColumn_eq hline.unbroken hline.closes]

end CompletionCheck.Lsp.LineTable

namespace CompletionCheck.Lsp.Session

/-- **A session sends the position of the table.**  About a text of less than 2³² bytes the question
that a session writes names the position that the table of its lines gives, in 32 bits. -/
theorem written_ask_of_table {s : Session} {q : Service.Request}
    (hsize : Text.byteLength q.text.toList < 0x100000000)
    (hopen : s.client.writesLeft ≠ some 0) :
    ∃ p, (LineTable.ofText q.text.toList).position q.cursor = .ok p ∧
      p.line < 0x100000000 ∧ p.character < 0x100000000 ∧
      (s.ask q).2.client.written = s.client.written ++
        [requestValue s.client.nextId completionMethod
          (completionParams (resolveUri s.rootUri q.fileName) p)] := by
  have htable := LineTable.position_ofText hsize q.cursor
  obtain ⟨hline, hcharacter⟩ := LineTable.lt_of_position htable
  exact ⟨_, htable, hline, hcharacter, written_ask hopen⟩

end CompletionCheck.Lsp.Session
