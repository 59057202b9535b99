import CompletionCheck.Proofs.Lsp.LineTable

/-!
# Every byte and every position

A server may answer with any position and a fixture may ask for any byte, so the conversion between
them has to make sense everywhere: between two characters, where it is exact and can be undone;
inside a character or inside the two units of one, where something has to be rounded; and past the
end of a line or of the text.

Both directions round in the same way.  A conversion walks until it has passed as many bytes, or as
many units, as it was asked for, and so it stops at the first place between two characters where
that is so, or at the end if there is none (`Reaches`).  A larger bound is reached later, which
makes both conversions monotone on all inputs alike.

Rounding up is not what was meant for a byte inside a character: its position counts that character
(`position_inside_character`), although it ought to be the position of the character's beginning
(`position_inside_character_counts`).
-/

namespace CompletionCheck.Lsp.Position

open Fixture (IsLine)

/-! ## Where a walk stops -/

section Walks

variable {weight : Char → Nat} {bound : Nat} {cs passed : List Char}

/-- The weight of a text: its bytes if each character weighs its bytes, and its units if each weighs
its units. -/
def total (weight : Char → Nat) (cs : List Char) : Nat :=
  cs.foldr (fun c n => weight c + n) 0

/-- The shortest beginning of a text that weighs a bound at least, or the text if it weighs less. -/
structure Reaches (weight : Char → Nat) (bound : Nat) (cs passed : List Char) : Prop where
  boundary : passed <+: cs
  enough : bound ≤ total weight passed ∨ passed = cs
  least : ∀ other, other <+: cs → bound ≤ total weight other → passed <+: other

theorem reaches_nil : Reaches weight bound [] [] :=
  ⟨List.prefix_refl [], .inr rfl, fun _ _ _ => List.nil_prefix⟩

theorem reaches_zero : Reaches weight 0 cs [] :=
  ⟨List.nil_prefix, .inl (Nat.zero_le _), fun _ _ _ => List.nil_prefix⟩

theorem Reaches.cons {c : Char} (h : Reaches weight (bound - weight c) cs passed)
    (hbound : 0 < bound) : Reaches weight bound (c :: cs) (c :: passed) where
  boundary := List.cons_prefix_cons.mpr ⟨rfl, h.boundary⟩
  enough := by
    refine h.enough.imp (fun henough => ?_) (congrArg _)
    exact Nat.sub_le_iff_le_add'.mp henough
  least other hother hle := by
    cases other with
    | nil => exact absurd hle (Nat.not_le.mpr hbound)
    | cons d other =>
        obtain ⟨rfl, hprefix⟩ := List.cons_prefix_cons.mp hother
        exact List.cons_prefix_cons.mpr
          ⟨rfl, h.least other hprefix (Nat.sub_le_iff_le_add'.mpr hle)⟩

theorem Reaches.mono {bound' : Nat} {passed' : List Char} (h : Reaches weight bound cs passed)
    (h' : Reaches weight bound' cs passed') (hle : bound ≤ bound') : passed <+: passed' := by
  rcases h'.enough with henough | rfl
  · exact h.least passed' h'.boundary (Nat.le_trans hle henough)
  · exact h.boundary

end Walks

/-- The walk to a byte stops at the first character that does not begin before it. -/
theorem exists_reaches_advance (offset : Nat) (cs : List Char) : ∀ (p : Position) (start : Nat),
    ∃ passed, Reaches Char.utf8Size (offset - start) cs passed ∧
      advance offset p start cs = passed.foldl after p := by
  induction cs with
  | nil => intro p start; exact ⟨[], reaches_nil, rfl⟩
  | cons c cs ih =>
      intro p start
      by_cases hbefore : start < offset
      · obtain ⟨passed, hreaches, hwalk⟩ := ih (p.after c) (start + c.utf8Size)
        rw [← Nat.sub_sub] at hreaches
        refine ⟨c :: passed, hreaches.cons (Nat.sub_pos_of_lt hbefore), ?_⟩
        rw [advance, if_pos hbefore, hwalk, List.foldl_cons]
      · refine ⟨[], ?_, if_neg hbefore⟩
        rw [Nat.sub_eq_zero_of_le (Nat.le_of_not_lt hbefore)]
        exact reaches_zero

theorem exists_reaches_ofOffset (text : List Char) (offset : Nat) :
    ∃ passed, Reaches Char.utf8Size offset text passed ∧
      ofOffset text offset = passed.foldl after ⟨0, 0⟩ :=
  exists_reaches_advance offset text ⟨0, 0⟩ 0

/-- The walk to a column stops at the first character with so many units before it, or at the end of
the line. -/
theorem exists_reaches_seekColumn {line after : List Char} (h : '\n' ∉ line)
    (hcloses : after = [] ∨ ∃ later, after = '\n' :: later) (character : Nat) :
    ∀ column start : Nat, ∃ passed, Reaches units (character - column) line passed ∧
      seekColumn character column start (line ++ after) = start + Text.byteLength passed := by
  induction line with
  | nil =>
      intro column start
      refine ⟨[], reaches_nil, ?_⟩
      obtain rfl | ⟨later, rfl⟩ := hcloses
      · rfl
      · simp [seekColumn]
  | cons c line ih =>
      intro column start
      have hc : c ≠ '\n' := (List.ne_of_not_mem_cons h).symm
      by_cases hle : character ≤ column
      · refine ⟨[], ?_, ?_⟩
        · rw [Nat.sub_eq_zero_of_le hle]
          exact reaches_zero
        · simp [seekColumn, hle]
      · obtain ⟨passed, hreaches, hwalk⟩ :=
          ih (List.not_mem_of_not_mem_cons h) (column + units c) (start + c.utf8Size)
        rw [← Nat.sub_sub] at hreaches
        refine ⟨c :: passed, hreaches.cons (by omega), ?_⟩
        rw [List.cons_append, seekColumn, if_neg (by simp [hle, hc]), hwalk, Text.byteLength_cons,
          Nat.add_assoc]

theorem exists_reaches_toOffset {text before line after : List Char} {p : Position}
    (h : IsLine text (p.line + 1) before line after) :
    ∃ passed, Reaches units p.character line passed ∧
      toOffset text p = Text.byteLength (before ++ passed) := by
  obtain ⟨passed, hreaches, hwalk⟩ := exists_reaches_seekColumn h.unbroken h.closes p.character 0
    (Text.byteLength before)
  refine ⟨passed, hreaches, ?_⟩
  rw [toOffset_of_isLine h, hwalk, Text.byteLength_append]

/-! ## Between two characters -/

/-- What a text holds behind its last line feed. -/
def lastLine (cs : List Char) : List Char :=
  (cs.reverse.takeWhile (· ≠ '\n')).reverse

theorem exists_lastLine (cs : List Char) :
    ∃ earlier, cs = earlier ++ lastLine cs ∧
      (earlier = [] ∨ ∃ before, earlier = before ++ ['\n']) ∧ '\n' ∉ lastLine cs := by
  refine ⟨(cs.reverse.dropWhile (· ≠ '\n')).reverse, ?_, ?_, fun hfeed => ?_⟩
  · rw [lastLine, ← List.reverse_append, List.takeWhile_append_dropWhile, List.reverse_reverse]
  · cases hrest : cs.reverse.dropWhile (· ≠ '\n') with
    | nil => exact .inl rfl
    | cons c rest =>
        have hc := List.head?_dropWhile_not (· ≠ '\n') cs.reverse
        rw [hrest] at hc
        obtain rfl : c = '\n' := by simpa using hc
        exact .inr ⟨rest.reverse, List.reverse_cons⟩
  · simpa using List.all_eq_true.mp List.all_takeWhile _ (List.mem_reverse.mp hfeed)

/-- Between two characters the position is exact, and the byte is found again. -/
theorem exact_of_boundary (before rest : List Char) :
    ofOffset (before ++ rest) (Text.byteLength before)
        = ⟨before.count '\n', unitCount (lastLine before)⟩ ∧
      toOffset (before ++ rest) ⟨before.count '\n', unitCount (lastLine before)⟩
        = Text.byteLength before := by
  obtain ⟨earlier, hbefore, hopens, hline⟩ := exists_lastLine before
  generalize lastLine before = passed at *
  subst hbefore
  rw [List.count_append, List.count_eq_zero.mpr hline, Nat.add_zero]
  exact ⟨ofOffset_line rest hopens hline, toOffset_line rest hopens hline⟩

theorem lt_foldl_after {more : List Char} (h : more ≠ []) (p : Position) :
    p < more.foldl after p := by
  rw [lt_def, foldl_after_line]
  by_cases hfeed : '\n' ∈ more
  · have hcount := List.count_pos_iff.mpr hfeed
    omega
  · obtain ⟨c, rest, rfl⟩ := List.exists_cons_of_ne_nil h
    have hunits := units_pos c
    rw [foldl_after_of_unbroken hfeed, List.count_eq_zero.mpr hfeed, unitCount_cons]
    exact .inr ⟨rfl, by dsimp only; omega⟩

theorem foldl_after_le {passed passed' : List Char} (h : passed <+: passed') (p : Position) :
    passed.foldl after p ≤ passed'.foldl after p := by
  obtain ⟨more, rfl⟩ := h
  rw [List.foldl_append]
  by_cases hmore : more = []
  · subst hmore
    exact .inr ⟨rfl, Nat.le_refl _⟩
  · have hlt := lt_def.mp (lt_foldl_after hmore (passed.foldl after p))
    rw [le_def]
    omega

/-- **Between two characters the conversion is exact and can be undone.**  The position of such a
byte has the line feeds before it as its line and, as its column, the units behind the last of them;
the byte of this position is the byte again; and of two such bytes the later has the later position.
The table of lines gives the same, in 32 bits. -/
theorem position_of_boundary {text : List Char} (hsize : Text.byteLength text < 0x100000000) :
    (∀ before rest, text = before ++ rest →
      let byte := Text.byteLength before
      let p : Position := ⟨before.count '\n', unitCount (lastLine before)⟩
      ofOffset text byte = p ∧ toOffset text p = byte ∧
      (LineTable.ofText text).position byte = .ok p ∧
      (LineTable.ofText text).offset p = .ok byte) ∧
    ∀ before more rest, text = before ++ more ++ rest → more ≠ [] →
      ofOffset text (Text.byteLength before) < ofOffset text (Text.byteLength (before ++ more)) := by
  constructor
  · rintro before rest rfl
    obtain ⟨hthere, hback⟩ := exact_of_boundary before rest
    refine ⟨hthere, hback, ?_, ?_⟩
    · rw [LineTable.position_ofText hsize, hthere]
    · rw [LineTable.offset_ofText, hback]
  · rintro before more rest rfl hmore
    rw [ofOffset_boundary, List.append_assoc, ofOffset_boundary, List.foldl_append]
    exact lt_foldl_after hmore _

/-- The byte before a line feed, and a byte between characters of four and of three bytes. -/
theorem position_of_boundary_wide :
    let text := ['é', '\r', '\n', '𝔸', '€', '\n']
    Text.byteLength text < 0x100000000 ∧
      (ofOffset text 8 = ⟨1, 2⟩ ∧ toOffset text ⟨1, 2⟩ = 8 ∧
        (LineTable.ofText text).position 8 = .ok ⟨1, 2⟩ ∧
        (LineTable.ofText text).offset ⟨1, 2⟩ = .ok 8) ∧
      ofOffset text 3 < ofOffset text 4 := by
  intro text
  have hsize : Text.byteLength text < 0x100000000 := by decide
  obtain ⟨hexact, hforward⟩ := position_of_boundary hsize
  exact ⟨hsize, hexact ['é', '\r', '\n', '𝔸'] ['€', '\n'] rfl,
    hforward ['é', '\r'] ['\n'] ['𝔸', '€', '\n'] rfl (List.cons_ne_nil _ _)⟩

/-! ## Inside a character -/

theorem ofOffset_into (before rest : List Char) {c : Char} {k : Nat} (hk : 0 < k)
    (hle : k ≤ c.utf8Size) :
    ofOffset (before ++ c :: rest) (Text.byteLength before + k)
      = (before.foldl after ⟨0, 0⟩).after c := by
  rw [ofOffset, advance_append (by omega), advance, if_pos (by omega), advance_of_le (by omega)]

/-- **A byte inside a character has the position behind the character.**  The character's units are
counted, so the position is the one of the next byte that begins a character. -/
theorem position_inside_character {text before rest : List Char} {c : Char} {k : Nat}
    (hsize : Text.byteLength text < 0x100000000) (htext : text = before ++ c :: rest)
    (hinside : 0 < k) (hk : k < c.utf8Size) :
    let p := ofOffset text (Text.byteLength before)
    ofOffset text (Text.byteLength before + k)
        = ofOffset text (Text.byteLength (before ++ [c])) ∧
      (LineTable.ofText text).position (Text.byteLength before + k)
        = .ok ⟨p.line, p.character + units c⟩ := by
  intro p
  have hunbroken : c ≠ '\n' := by
    rintro rfl
    exact absurd hk (Nat.not_lt.mpr hinside)
  have hinto := ofOffset_into before rest hinside (Nat.le_of_lt hk)
  have hbehind := ofOffset_into before rest c.utf8Size_pos (Nat.le_refl _)
  have hsum : Text.byteLength (before ++ [c]) = Text.byteLength before + c.utf8Size := by
    rw [Text.byteLength_append, Text.byteLength_cons, Text.byteLength_nil, Nat.add_zero]
  have hp : p = before.foldl after ⟨0, 0⟩ := by
    rw [← ofOffset_boundary before (c :: rest), ← htext]
  rw [LineTable.position_ofText hsize, hsum, htext, hinto, hbehind, ← hp, after, if_neg hunbroken]
  exact ⟨rfl, rfl⟩

/-- A byte in the middle of a character of four bytes and two units. -/
theorem position_inside_character_wide :
    let text := ['a', '\n', '𝔸', 'b']
    Text.byteLength text < 0x100000000 ∧ 0 < 2 ∧ 2 < '𝔸'.utf8Size ∧
      ofOffset text 4 = ofOffset text 6 ∧ (LineTable.ofText text).position 4 = .ok ⟨1, 2⟩ := by
  intro text
  have hsize : Text.byteLength text < 0x100000000 := by decide
  have hinside : 2 < '𝔸'.utf8Size := by decide
  have htext : text = ['a', '\n'] ++ '𝔸' :: ['b'] := rfl
  exact ⟨hsize, by decide, hinside, position_inside_character hsize htext (by decide) hinside⟩

/-- The position of a byte inside a character is not that of the character's beginning. -/
theorem position_inside_character_counts :
    ¬ ∀ (text before rest : List Char) (c : Char) (k : Nat),
      Text.byteLength text < 0x100000000 → text = before ++ c :: rest → 0 < k → k < c.utf8Size →
      ofOffset text (Text.byteLength before + k) = ofOffset text (Text.byteLength before) := by
  intro h
  have hsame := h ['é'] [] [] 'é' 1 (by decide) rfl (by decide) (by decide)
  exact absurd hsame (by decide)

/-! ## Everywhere -/

/-- Where the byte of a position is: at the end of the text if there is no such line; else at the
first place of the line that has the column before it, or at the end of the line if none has. -/
inductive Lands (text : List Char) (p : Position) : Nat → Prop
  | past : (∀ before line after, ¬ IsLine text (p.line + 1) before line after) →
      Lands text p (Text.byteLength text)
  | column {before line after passed : List Char} : IsLine text (p.line + 1) before line after →
      passed <+: line → p.character ≤ unitCount passed →
      (∀ other, other <+: line → p.character ≤ unitCount other →
        Text.byteLength passed ≤ Text.byteLength other) →
      Lands text p (Text.byteLength (before ++ passed))
  | lineEnd {before line after : List Char} : IsLine text (p.line + 1) before line after →
      (∀ other, other <+: line → unitCount other < p.character) →
      Lands text p (Text.byteLength (before ++ line))

theorem byteLength_le_of_prefix {passed cs : List Char} (h : passed <+: cs) :
    Text.byteLength passed ≤ Text.byteLength cs := by
  obtain ⟨rest, rfl⟩ := h
  rw [Text.byteLength_append]
  exact Nat.le_add_right _ _

theorem lands_toOffset (text : List Char) (p : Position) : Lands text p (toOffset text p) := by
  by_cases hexists : p.line ≤ text.count '\n'
  · obtain ⟨before, line, after, hline⟩ := Fixture.exists_isLine_iff.mpr hexists
    obtain ⟨passed, hreaches, hbyte⟩ := exists_reaches_toOffset hline
    rw [hbyte]
    by_cases henough : p.character ≤ unitCount passed
    · exact .column hline hreaches.boundary henough fun other hother hle =>
        byteLength_le_of_prefix (hreaches.least other hother hle)
    · obtain rfl : passed = line := hreaches.enough.resolve_left henough
      refine .lineEnd hline fun other hother => Nat.lt_of_not_le fun hle => henough ?_
      have hsame := hother.eq_of_length_le (hreaches.least other hother hle).length_le
      exact hsame ▸ hle
  · rw [toOffset_past (Nat.lt_of_not_le hexists)]
    exact .past fun before line after hline =>
      hexists (Fixture.exists_isLine_iff.mp ⟨before, line, after, hline⟩)

theorem exists_boundary_toOffset (text : List Char) (p : Position) :
    ∃ before rest, text = before ++ rest ∧ toOffset text p = Text.byteLength before := by
  by_cases hexists : p.line ≤ text.count '\n'
  · obtain ⟨before, line, after, hline⟩ := Fixture.exists_isLine_iff.mpr hexists
    obtain ⟨passed, hreaches, hbyte⟩ := exists_reaches_toOffset hline
    obtain ⟨left, rfl⟩ := hreaches.boundary
    exact ⟨before ++ passed, left ++ after, by rw [hline.whole]; simp, hbyte⟩
  · exact ⟨text, [], (List.append_nil text).symm, toOffset_past (Nat.lt_of_not_le hexists)⟩

theorem ofOffset_mono (text : List Char) {a b : Nat} (h : a ≤ b) :
    ofOffset text a ≤ ofOffset text b := by
  obtain ⟨passed, hreaches, hwalk⟩ := exists_reaches_ofOffset text a
  obtain ⟨passed', hreaches', hwalk'⟩ := exists_reaches_ofOffset text b
  rw [hwalk, hwalk']
  exact foldl_after_le (hreaches.mono hreaches' h) ⟨0, 0⟩

theorem toOffset_mono (text : List Char) {p q : Position} (h : p ≤ q) :
    toOffset text p ≤ toOffset text q := by
  by_cases hq : q.line ≤ text.count '\n'
  · have hp : p.line ≤ text.count '\n' := by
      rcases le_def.mp h with hlt | ⟨heq, -⟩ <;> omega
    obtain ⟨before, line, after, hline⟩ := Fixture.exists_isLine_iff.mpr hp
    obtain ⟨passed, hreaches, hbyte⟩ := exists_reaches_toOffset hline
    rw [hbyte]
    rcases le_def.mp h with hlt | ⟨heq, hle⟩
    · -- the earlier line ends before the later one begins
      obtain ⟨before', line', after', hline'⟩ := Fixture.exists_isLine_iff.mpr hq
      obtain ⟨passed', -, hbyte'⟩ := exists_reaches_toOffset hline'
      rw [hbyte']
      refine byteLength_le_of_prefix (List.IsPrefix.trans ?_ (List.prefix_append before' passed'))
      exact ((List.prefix_append_right_inj before).mpr hreaches.boundary).trans
        (hline.before_of_lt hline' (Nat.succ_lt_succ hlt))
    · -- in one line the larger column is reached later
      rw [heq] at hline
      obtain ⟨passed', hreaches', hbyte'⟩ := exists_reaches_toOffset hline
      rw [hbyte']
      exact byteLength_le_of_prefix
        ((List.prefix_append_right_inj before).mpr (hreaches.mono hreaches' hle))
  · rw [toOffset_past (Nat.lt_of_not_le hq)]
    obtain ⟨before, rest, hwhole, hbyte⟩ := exists_boundary_toOffset text p
    rw [hbyte]
    exact byteLength_le_of_prefix ⟨rest, hwhole.symm⟩

theorem ofOffset_past {text : List Char} {offset : Nat} (h : Text.byteLength text ≤ offset) :
    ofOffset text offset = ofOffset text (Text.byteLength text) := by
  rw [← ofOffset_min text offset, Nat.min_eq_right h]

/-- **The conversion makes sense everywhere.**  With the table of lines no byte and no position runs
into a fault, and both give what the walk gives.  A position lands between two characters, where its
line and its column say; a byte past the end has the position of the end; and both conversions keep
the order, whatever bytes and positions they are given. -/
theorem conversions_total {text : List Char} (hsize : Text.byteLength text < 0x100000000) :
    (∀ byte, (LineTable.ofText text).position byte = .ok (ofOffset text byte)) ∧
    (∀ p, (LineTable.ofText text).offset p = .ok (toOffset text p)) ∧
    (∀ p, Lands text p (toOffset text p)) ∧
    (∀ p, ∃ before rest, text = before ++ rest ∧ toOffset text p = Text.byteLength before) ∧
    (∀ byte, Text.byteLength text ≤ byte →
      ofOffset text byte = ofOffset text (Text.byteLength text)) ∧
    (∀ a b, a ≤ b → ofOffset text a ≤ ofOffset text b) ∧
    ∀ p q : Position, p ≤ q → toOffset text p ≤ toOffset text q :=
  ⟨fun _ => LineTable.position_ofText hsize _, fun _ => LineTable.offset_ofText text _,
    fun _ => lands_toOffset text _, fun _ => exists_boundary_toOffset text _,
    fun _ => ofOffset_past, fun _ _ => ofOffset_mono text, fun _ _ => toOffset_mono text⟩

/-- Bytes inside a character and far past the end, a column between the two units of a character, a
column past its line and a line past the text. -/
theorem conversions_total_wide :
    let text := ['é', '\n', '𝔸', 'b']
    Text.byteLength text < 0x100000000 ∧
      (LineTable.ofText text).position 5 = .ok ⟨1, 2⟩ ∧
      (LineTable.ofText text).position 0xffffffffffffffff = .ok ⟨1, 3⟩ ∧
      (LineTable.ofText text).offset ⟨1, 1⟩ = .ok 7 ∧
      (LineTable.ofText text).offset ⟨0, 9⟩ = .ok 2 ∧
      (LineTable.ofText text).offset ⟨5, 0⟩ = .ok 8 ∧
      toOffset text ⟨0, 9⟩ ≤ toOffset text ⟨1, 1⟩ := by
  intro text
  have hsize : Text.byteLength text < 0x100000000 := by decide
  obtain ⟨hposition, hoffset, -, -, -, -, hmono⟩ := conversions_total hsize
  exact ⟨hsize, hposition 5, hposition _, hoffset ⟨1, 1⟩, hoffset ⟨0, 9⟩, hoffset ⟨5, 0⟩,
    hmono _ _ (by decide)⟩

end CompletionCheck.Lsp.Position
