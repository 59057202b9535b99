import CompletionCheck.Proofs.Fixture.Extraction
import CompletionCheck.Proofs.Lsp.SessionSteps

/-!
# Positions of cases

A fixture is cut into lines and every case counts bytes from the start of its line; a position
walks over the text from its beginning and counts line feeds and units of UTF-16.  The two never
meet in the program, and a server that is asked about another place than the one a case means does
not say so.

A place between two characters is given by the text before it, and that text is what a position
counts: `ofOffset_boundary`.  Cut behind its last line feed it shows both coordinates
(`ofOffset_line`), and looking for the position again stops at the same place (`toOffset_line`).
-/

namespace CompletionCheck.Lsp.Position

open Fixture (IsLine CasePlaced TestCase)

/-- The number of UTF-16 units of a text. -/
def unitCount (cs : List Char) : Nat :=
  cs.foldr (fun c n => units c + n) 0

@[simp] theorem unitCount_nil : unitCount [] = 0 := rfl

@[simp] theorem unitCount_cons (c : Char) (cs : List Char) :
    unitCount (c :: cs) = units c + unitCount cs := by
  simp [unitCount]

theorem units_pos (c : Char) : 0 < units c := by
  rw [units]
  split <;> omega

theorem units_le_utf8Size (c : Char) : units c ≤ c.utf8Size := by
  have hpos := c.utf8Size_pos
  rw [units]
  split
  · exact hpos
  · next hlarge =>
      have hmany : c.utf8Size ≠ 1 := by
        rw [Ne, Char.utf8Size_eq_one_iff, UInt32.le_iff_toNat_le]
        have hval : c.val.toNat = c.toNat := rfl
        have hlimit : (127 : UInt32).toNat = 127 := rfl
        omega
      omega

theorem unitCount_le_byteLength (cs : List Char) : unitCount cs ≤ Text.byteLength cs := by
  induction cs with
  | nil => exact Nat.le_refl 0
  | cons c cs ih =>
      rw [unitCount_cons, Text.byteLength_cons]
      exact Nat.add_le_add (units_le_utf8Size c) ih

theorem count_le_byteLength (c : Char) (cs : List Char) : cs.count c ≤ Text.byteLength cs := by
  induction cs with
  | nil => exact Nat.le_refl 0
  | cons d cs ih =>
      have hpos := d.utf8Size_pos
      rw [List.count_cons, Text.byteLength_cons]
      split <;> omega

/-! ## From bytes to positions -/

theorem advance_of_le {offset start : Nat} (h : offset ≤ start) (p : Position) (cs : List Char) :
    advance offset p start cs = p := by
  cases cs with
  | nil => rfl
  | cons c cs => rw [advance, if_neg (Nat.not_lt.mpr h)]

theorem advance_append {offset : Nat} {xs ys : List Char} : ∀ {p : Position} {start : Nat},
    start + Text.byteLength xs ≤ offset →
      advance offset p start (xs ++ ys)
        = advance offset (xs.foldl after p) (start + Text.byteLength xs) ys := by
  induction xs with
  | nil => intro p start _; rfl
  | cons c xs ih =>
      intro p start h
      rw [Text.byteLength_cons] at h ⊢
      have hpos := c.utf8Size_pos
      rw [List.cons_append, advance, if_pos (by omega), ih (by omega), List.foldl_cons,
        Nat.add_assoc]

/-- The position between two characters counts the text before it. -/
theorem ofOffset_boundary (before rest : List Char) :
    ofOffset (before ++ rest) (Text.byteLength before) = before.foldl after ⟨0, 0⟩ := by
  rw [ofOffset, advance_append (by omega), advance_of_le (by omega)]

theorem advance_min (offset : Nat) (cs : List Char) : ∀ {p : Position} {start : Nat},
    advance (min offset (start + Text.byteLength cs)) p start cs = advance offset p start cs := by
  induction cs with
  | nil => intro p start; rfl
  | cons c cs ih =>
      intro p start
      have hpos := c.utf8Size_pos
      have hbegins : start < min offset (start + Text.byteLength (c :: cs)) ↔ start < offset := by
        rw [Text.byteLength_cons]
        omega
      simp only [advance, hbegins]
      rw [Text.byteLength_cons, ← Nat.add_assoc, ih]

theorem ofOffset_min (text : List Char) (offset : Nat) :
    ofOffset text (min offset (Text.byteLength text)) = ofOffset text offset := by
  have hmin := @advance_min offset text ⟨0, 0⟩ 0
  rw [Nat.zero_add] at hmin
  exact hmin

theorem foldl_after_line (cs : List Char) : ∀ p : Position,
    (cs.foldl after p).line = p.line + cs.count '\n' := by
  induction cs with
  | nil => intro p; rfl
  | cons c cs ih =>
      intro p
      rw [List.foldl_cons, ih, after]
      split
      · next hc =>
          subst hc
          rw [List.count_cons_self, Nat.add_assoc, Nat.add_comm 1]
      · next hc => rw [List.count_cons_of_ne hc]

theorem foldl_after_of_unbroken {cs : List Char} (h : '\n' ∉ cs) : ∀ p : Position,
    cs.foldl after p = ⟨p.line, p.character + unitCount cs⟩ := by
  induction cs with
  | nil => intro p; rfl
  | cons c cs ih =>
      intro p
      have hc : c ≠ '\n' := (List.ne_of_not_mem_cons h).symm
      rw [List.foldl_cons, ih (List.not_mem_of_not_mem_cons h), after, if_neg hc, unitCount_cons,
        Nat.add_assoc]

theorem foldl_after_of_opens {before : List Char}
    (h : before = [] ∨ ∃ earlier, before = earlier ++ ['\n']) :
    before.foldl after ⟨0, 0⟩ = ⟨before.count '\n', 0⟩ := by
  obtain rfl | ⟨earlier, rfl⟩ := h
  · rfl
  · have hline := foldl_after_line earlier ⟨0, 0⟩
    rw [List.foldl_append, List.foldl_cons, List.foldl_nil, after, if_pos rfl, hline,
      List.count_append, List.count_singleton_self]
    simp

/-- The position of a place in a line: the line feeds before the line, and the units of the line
before the place. -/
theorem ofOffset_line {before passed : List Char} (rest : List Char)
    (hopens : before = [] ∨ ∃ earlier, before = earlier ++ ['\n']) (hline : '\n' ∉ passed) :
    ofOffset (before ++ passed ++ rest) (Text.byteLength (before ++ passed))
      = ⟨before.count '\n', unitCount passed⟩ := by
  rw [ofOffset_boundary, List.foldl_append, foldl_after_of_opens hopens,
    foldl_after_of_unbroken hline]
  simp

/-! ## From positions to bytes -/

theorem seekColumn_append {passed : List Char} (h : '\n' ∉ passed) (rest : List Char) :
    ∀ column start : Nat,
      seekColumn (column + unitCount passed) column start (passed ++ rest)
        = start + Text.byteLength passed := by
  induction passed with
  | nil =>
      intro column start
      cases rest with
      | nil => rfl
      | cons c rest => simp [seekColumn]
  | cons c passed ih =>
      intro column start
      have hc : c ≠ '\n' := (List.ne_of_not_mem_cons h).symm
      have hunits := units_pos c
      have hgo : ¬ (column + unitCount (c :: passed) ≤ column || c = '\n') = true := by
        rw [unitCount_cons, Bool.or_eq_true, decide_eq_true_eq, decide_eq_true_eq]
        rintro (hle | hfeed)
        · omega
        · exact hc hfeed
      rw [List.cons_append, seekColumn, if_neg hgo, unitCount_cons, ← Nat.add_assoc,
        ih (List.not_mem_of_not_mem_cons h), Text.byteLength_cons, Nat.add_assoc]

theorem seek_zero (character start : Nat) (cs : List Char) :
    seek 0 character start cs = seekColumn character 0 start cs := by
  cases cs <;> rfl

theorem seek_append (character : Nat) (earlier rest : List Char) : ∀ start : Nat,
    seek ((earlier ++ ['\n']).count '\n') character start (earlier ++ ['\n'] ++ rest)
      = seek 0 character (start + Text.byteLength (earlier ++ ['\n'])) rest := by
  induction earlier with
  | nil => intro start; rfl
  | cons c earlier ih =>
      intro start
      rw [List.cons_append, List.cons_append, Text.byteLength_cons, ← Nat.add_assoc, ← ih]
      by_cases hc : c = '\n'
      · subst hc
        rw [List.count_cons_self, seek, if_pos rfl]
      · obtain ⟨n, hn⟩ : ∃ n, (earlier ++ ['\n']).count '\n' = n + 1 := ⟨earlier.count '\n', by simp⟩
        rw [List.count_cons_of_ne hc, hn, seek, if_neg hc]

theorem toOffset_of_isLine {text before line after : List Char} {p : Position}
    (h : IsLine text (p.line + 1) before line after) :
    toOffset text p = seekColumn p.character 0 (Text.byteLength before) (line ++ after) := by
  have hnumber : p.line = before.count '\n' := Nat.succ.inj h.number
  rw [toOffset, h.whole, hnumber, List.append_assoc, ← seek_zero]
  obtain rfl | ⟨earlier, rfl⟩ := h.opens
  · rfl
  · rw [seek_append, Nat.zero_add]

theorem seek_past (character : Nat) (cs : List Char) : ∀ {line start : Nat},
    cs.count '\n' < line → seek line character start cs = start + Text.byteLength cs := by
  induction cs with
  | nil => intro line start _; rfl
  | cons c cs ih =>
      intro line start hlt
      obtain ⟨n, rfl⟩ : ∃ n, line = n + 1 := Nat.exists_eq_succ_of_ne_zero (Nat.ne_zero_of_lt hlt)
      rw [seek, Text.byteLength_cons, ← Nat.add_assoc]
      by_cases hc : c = '\n'
      · subst hc
        rw [List.count_cons_self] at hlt
        rw [if_pos rfl, ih (Nat.lt_of_succ_lt_succ hlt)]
      · rw [List.count_cons_of_ne hc] at hlt
        rw [if_neg hc, ih hlt]

theorem toOffset_past {text : List Char} {p : Position} (h : text.count '\n' < p.line) :
    toOffset text p = Text.byteLength text := by
  rw [toOffset, seek_past _ _ h, Nat.zero_add]

theorem toOffset_line {before passed : List Char} (rest : List Char)
    (hopens : before = [] ∨ ∃ earlier, before = earlier ++ ['\n']) (hline : '\n' ∉ passed) :
    toOffset (before ++ passed ++ rest) ⟨before.count '\n', unitCount passed⟩
      = Text.byteLength (before ++ passed) := by
  have hcolumn := seekColumn_append hline rest 0 (Text.byteLength before)
  rw [Nat.zero_add] at hcolumn
  rw [toOffset, List.append_assoc, Text.byteLength_append, ← hcolumn, ← seek_zero]
  obtain rfl | ⟨earlier, rfl⟩ := hopens
  · rfl
  · rw [seek_append, Nat.zero_add]

/-! ## The position of a case -/

/-- The code of a case up to the cursor is what a position of the case counts behind the last line
feed. -/
theorem exists_passed {source text : String} {d : Dialect} {c : TestCase}
    (h : CasePlaced source text d c) :
    ∃ before passed rest, passed <+: c.code.toList ∧
      Text.byteLength passed = c.cursor - c.lineStart ∧
      c.text.toList = before ++ passed ++ rest ∧ c.cursor = Text.byteLength (before ++ passed) ∧
      c.lineNumber - 1 = before.count '\n' ∧
      (before = [] ∨ ∃ earlier, before = earlier ++ ['\n']) ∧ '\n' ∉ passed := by
  obtain ⟨before, line, rest, later, hline, hcut, hstart⟩ := h.line
  obtain ⟨passed, ⟨left, hleft⟩, hoffset⟩ := h.cursor.boundary
  have hwithin := h.within.1
  have hlineText : line = passed ++ (left ++ (d.marker.toList ++ rest)) := by
    rw [hcut.whole, ← hleft, List.append_assoc]
  refine ⟨before, passed, left ++ (d.marker.toList ++ rest) ++ later, ⟨left, hleft⟩, hoffset,
    ?_, ?_, ?_, hline.opens, fun hfeed => hline.unbroken ?_⟩
  · rw [h.origin.2.1, hline.whole, hlineText]
    simp
  · rw [Text.byteLength_append, hoffset, hstart]
    omega
  · rw [hline.number]
    rfl
  · rw [hlineText]
    exact List.mem_append_left _ hfeed

/-- **A case is asked about where it stands.**  For a case of a fixture of less than 2³² bytes, the
question that a session writes has the line of the case, counted from zero, and as its column the
units of the case's code up to the cursor; looked up again, the position is the cursor.  Both
coordinates fit 32 bits. -/
theorem position_of_case {source text : String} {d : Dialect} {c : TestCase}
    (hsize : Text.byteLength text.toList < 0x100000000)
    (hc : .ok c ∈ Fixture.entries source text d) :
    ∃ passed, passed <+: c.code.toList ∧ Text.byteLength passed = c.cursor - c.lineStart ∧
      ofOffset c.text.toList c.cursor = ⟨c.lineNumber - 1, unitCount passed⟩ ∧
      toOffset c.text.toList (ofOffset c.text.toList c.cursor) = c.cursor ∧
      c.lineNumber - 1 < 0x100000000 ∧ unitCount passed < 0x100000000 ∧
      ∀ s : Session, s.client.writesLeft ≠ some 0 →
        (s.ask (.ofCase c)).2.client.written = s.client.written ++
          [requestValue s.client.nextId Session.completionMethod
            (Session.completionParams (resolveUri s.rootUri d.fileName)
              ⟨c.lineNumber - 1, unitCount passed⟩)] := by
  have hplaced := Fixture.casePlaced_of_mem hc
  obtain ⟨before, passed, rest, hprefix, hoffset, htext, hcursor, hnumber, hopens, hline⟩ :=
    exists_passed hplaced
  have hposition : ofOffset c.text.toList c.cursor = ⟨c.lineNumber - 1, unitCount passed⟩ := by
    rw [htext, hcursor, hnumber, ofOffset_line rest hopens hline]
  have hback : toOffset c.text.toList ⟨c.lineNumber - 1, unitCount passed⟩ = c.cursor := by
    rw [htext, hcursor, hnumber, toOffset_line rest hopens hline]
  have hbytes : Text.byteLength before + Text.byteLength passed + Text.byteLength rest
      < 0x100000000 := by
    rw [← Text.byteLength_append, ← Text.byteLength_append, ← htext, hplaced.origin.2.1]
    exact hsize
  have hfeeds := count_le_byteLength '\n' before
  have hunits := unitCount_le_byteLength passed
  refine ⟨passed, hprefix, hoffset, hposition, ?_, by omega, by omega, fun s hopen => ?_⟩
  · rw [hposition]
    exact hback
  · have hparams : s.askedParams (.ofCase c)
        = Session.completionParams (resolveUri s.rootUri d.fileName)
            (ofOffset c.text.toList c.cursor) := by
      rw [← hplaced.origin.2.2]
      rfl
    rw [Session.written_ask hopen, hparams, hposition]

/-- A fixture whose only case stands behind characters of two, three and four bytes. -/
def wideText : String := "é\r\n\n\"𝔸€\".len  // len"

def wideCase : TestCase :=
  Fixture.caseOf "a.ts" wideText .typeScript ⟨3, 5, "\"𝔸€\".len  // len".toList⟩
    "\"𝔸€\".len  ".toList { expected := ["len"] }

/-- The cursor is on the last letter of the code, twelve bytes and eight units into its line. -/
theorem position_of_case_wide :
    Text.byteLength wideText.toList < 0x100000000 ∧
    .ok wideCase ∈ Fixture.entries "a.ts" wideText .typeScript ∧
    wideCase.cursor = 17 ∧
    ofOffset wideCase.text.toList 17 = ⟨2, 8⟩ ∧
    ∃ passed, passed <+: wideCase.code.toList ∧ Text.byteLength passed = 12 ∧
      ofOffset wideCase.text.toList 17 = ⟨2, unitCount passed⟩ := by
  have hsize : Text.byteLength wideText.toList < 0x100000000 := by decide
  have hc : .ok wideCase ∈ Fixture.entries "a.ts" wideText .typeScript := by
    have hentries : Fixture.entries "a.ts" wideText .typeScript = [.ok wideCase] := by rfl
    rw [hentries]
    exact List.mem_singleton_self _
  obtain ⟨passed, hprefix, hoffset, hposition, -⟩ := position_of_case hsize hc
  exact ⟨hsize, hc, by rfl, by rfl, passed, hprefix, hoffset, hposition⟩

end CompletionCheck.Lsp.Position
