import CompletionCheck.Fixture.Line

/-!
# Where the lines of a text stand

Lines are placed by adding up: every line begins where the one before it ended, one line feed
further on.  What they should be placed by is the text alone.  `IsLine` says so without any sum: a
line has as many line feeds before it as there are lines before it, stands between two line feeds
or the ends of the text, and holds none.  `mem_linesOf` is the agreement of the two, in both
directions, so no line is left out and none is placed wrongly.

Both sides are compared with the list of lines cut in two: the lines before the one in question,
each with its line feed (`ended`), are the text before it.

A text has a line for every number up to that of its line feeds and one more (`exists_isLine_iff`),
and the line of a number stands at its index (`getElem?_linesOf`).
-/

namespace CompletionCheck.Fixture

/-- Line number `number` of a text is `line`, and `before` and `after` are the texts around it. -/
structure IsLine (text : List Char) (number : Nat) (before line after : List Char) : Prop where
  whole : text = before ++ line ++ after
  number : number = before.count '\n' + 1
  opens : before = [] ∨ ∃ earlier, before = earlier ++ ['\n']
  closes : after = [] ∨ ∃ later, after = '\n' :: later
  unbroken : '\n' ∉ line

/-- Lines that follow each other, each with the line feed behind it. -/
def ended (lines : List (List Char)) : List Char :=
  lines.flatMap (· ++ ['\n'])

@[simp] theorem ended_nil : ended [] = [] := rfl

@[simp] theorem ended_cons (line : List Char) (rest : List (List Char)) :
    ended (line :: rest) = line ++ '\n' :: ended rest := by
  simp [ended]

theorem byteLength_ended_cons (line : List Char) (rest : List (List Char)) :
    Text.byteLength (ended (line :: rest))
      = Text.byteLength line + 1 + Text.byteLength (ended rest) := by
  rw [ended_cons, Text.byteLength_append, Text.byteLength_cons, Nat.add_assoc]
  rfl

/-! ## Cutting at line feeds -/

theorem ended_eq_intercalate {lines : List (List Char)} (h : lines ≠ []) :
    ended lines = ['\n'].intercalate lines ++ ['\n'] := by
  induction lines with
  | nil => exact absurd rfl h
  | cons line rest ih =>
      rw [ended_cons]
      cases rest with
      | nil => simp
      | cons next rest =>
          rw [ih (List.cons_ne_nil _ _)]
          simp [List.intercalate_cons_cons]

theorem ended_splitOn (text : List Char) : ended (text.splitOn '\n') = text ++ ['\n'] := by
  rw [ended_eq_intercalate (List.splitOn_ne_nil _ _), List.intercalate_splitOn]

theorem count_ended {lines : List (List Char)} (h : ∀ line ∈ lines, '\n' ∉ line) :
    (ended lines).count '\n' = lines.length := by
  induction lines with
  | nil => rfl
  | cons line rest ih =>
      have hline : line.count '\n' = 0 := List.count_eq_zero.mpr (h line List.mem_cons_self)
      have hrest := ih fun x hx => h x (List.mem_cons_of_mem _ hx)
      rw [ended_cons, List.count_append, List.count_cons_self, hline, hrest, List.length_cons]
      omega

theorem ended_opens (lines : List (List Char)) :
    ended lines = [] ∨ ∃ earlier, ended lines = earlier ++ ['\n'] := by
  cases lines with
  | nil => exact Or.inl rfl
  | cons line rest => exact Or.inr ⟨_, ended_eq_intercalate (List.cons_ne_nil _ _)⟩

theorem intercalate_append_cons (xs ys : List (List Char)) (line : List Char) :
    ∃ after, ['\n'].intercalate (xs ++ line :: ys) = ended xs ++ line ++ after ∧
      (after = [] ∨ ∃ later, after = '\n' :: later) := by
  induction xs with
  | nil =>
      cases ys with
      | nil => exact ⟨[], by simp, Or.inl rfl⟩
      | cons next ys =>
          refine ⟨'\n' :: ['\n'].intercalate (next :: ys), ?_, Or.inr ⟨_, rfl⟩⟩
          simp [List.intercalate_cons_cons]
  | cons x xs ih =>
      obtain ⟨after, hafter, hend⟩ := ih
      refine ⟨after, ?_, hend⟩
      rw [List.cons_append, List.intercalate_cons_of_ne_nil (by simp), hafter]
      simp

theorem isLine_of_splitOn {text line : List Char} {xs ys : List (List Char)}
    (h : text.splitOn '\n' = xs ++ line :: ys) :
    ∃ after, IsLine text (xs.length + 1) (ended xs) line after := by
  have hfree : ∀ l ∈ xs ++ line :: ys, '\n' ∉ l := by
    intro l hl
    rw [← h] at hl
    exact Text.not_mem_of_mem_splitOn hl
  obtain ⟨after, hafter, hcloses⟩ := intercalate_append_cons xs ys line
  rw [← h, List.intercalate_splitOn] at hafter
  have hcount := count_ended fun l hl => hfree l (List.mem_append_left _ hl)
  exact ⟨after, hafter, by rw [hcount], ended_opens xs, hcloses, hfree line (by simp)⟩

/-- What stands around a line decides where the text is cut around it, whatever the line is. -/
theorem exists_splitOn_around {before after : List Char}
    (hopens : before = [] ∨ ∃ earlier, before = earlier ++ ['\n'])
    (hcloses : after = [] ∨ ∃ later, after = '\n' :: later) :
    ∃ xs ys, before = ended xs ∧ xs.length = before.count '\n' ∧
      ∀ line, '\n' ∉ line → (before ++ line ++ after).splitOn '\n' = xs ++ line :: ys := by
  have hrest : ∃ ys, ∀ line, '\n' ∉ line → (line ++ after).splitOn '\n' = line :: ys := by
    obtain rfl | ⟨later, rfl⟩ := hcloses
    · exact ⟨[], fun line hline => by rw [List.append_nil, List.splitOn_eq_singleton hline]⟩
    · exact ⟨later.splitOn '\n',
        fun line hline => List.splitOn_append_cons_self_of_not_mem hline _⟩
  obtain ⟨ys, hys⟩ := hrest
  obtain rfl | ⟨earlier, rfl⟩ := hopens
  · exact ⟨[], ys, rfl, rfl, hys⟩
  · refine ⟨earlier.splitOn '\n', ys, (ended_splitOn earlier).symm, ?_, fun line hline => ?_⟩
    · rw [Text.length_splitOn, List.count_append, List.count_singleton_self]
    · rw [List.append_assoc, List.append_assoc, List.singleton_append,
        List.splitOn_append_cons_self, hys line hline]

theorem IsLine.splitOn {text before line after : List Char} {number : Nat}
    (h : IsLine text number before line after) :
    ∃ xs ys, text.splitOn '\n' = xs ++ line :: ys ∧ number = xs.length + 1 ∧
      before = ended xs := by
  obtain ⟨xs, ys, hbefore, hlength, hcut⟩ := exists_splitOn_around h.opens h.closes
  refine ⟨xs, ys, ?_, ?_, hbefore⟩
  · rw [h.whole, hcut line h.unbroken]
  · rw [h.number, hlength]

/-! ## Placing lines -/

theorem mem_placeLines {l : PlacedLine} {lines : List (List Char)} {number start : Nat} :
    l ∈ placeLines number start lines ↔
      ∃ xs ys, lines = xs ++ l.chars :: ys ∧ l.number = number + xs.length ∧
        l.start = start + Text.byteLength (ended xs) := by
  induction lines generalizing number start with
  | nil => simp [placeLines]
  | cons line rest ih =>
      rw [placeLines, List.mem_cons, ih]
      constructor
      · rintro (rfl | ⟨xs, ys, rfl, hnumber, hstart⟩)
        · exact ⟨[], rest, rfl, rfl, rfl⟩
        · refine ⟨line :: xs, ys, rfl, ?_, ?_⟩
          · rw [hnumber, List.length_cons]
            omega
          · rw [hstart, byteLength_ended_cons]
            omega
      · rintro ⟨xs, ys, hlines, hnumber, hstart⟩
        cases xs with
        | nil =>
            obtain ⟨rfl, rfl⟩ := List.cons.inj hlines
            obtain ⟨n, b, chars⟩ := l
            exact Or.inl (by simp_all)
        | cons x xs =>
            obtain ⟨rfl, rfl⟩ := List.cons.inj hlines
            refine Or.inr ⟨xs, ys, rfl, ?_, ?_⟩
            · rw [hnumber, List.length_cons]
              omega
            · rw [hstart, byteLength_ended_cons]
              omega

theorem mem_linesOf {text : List Char} {l : PlacedLine} :
    l ∈ linesOf text ↔
      ∃ before after, IsLine text l.number before l.chars after ∧
        Text.byteLength before = l.start := by
  rw [linesOf, mem_placeLines]
  constructor
  · rintro ⟨xs, ys, hlines, hnumber, hstart⟩
    obtain ⟨after, hline⟩ := isLine_of_splitOn hlines
    refine ⟨ended xs, after, ?_, ?_⟩
    · rw [hnumber, Nat.add_comm]
      exact hline
    · rw [hstart, Nat.zero_add]
  · rintro ⟨before, after, hline, hstart⟩
    obtain ⟨xs, ys, hlines, hnumber, rfl⟩ := hline.splitOn
    exact ⟨xs, ys, hlines, by omega, by omega⟩

theorem pairwise_placeLines (lines : List (List Char)) : ∀ number start : Nat,
    (placeLines number start lines).Pairwise fun l m =>
      l.number < m.number ∧ l.start + Text.byteLength l.chars < m.start := by
  induction lines with
  | nil => exact fun _ _ => List.Pairwise.nil
  | cons line rest ih =>
      intro number start
      refine List.pairwise_cons.mpr ⟨fun m hm => ?_, ih _ _⟩
      obtain ⟨xs, ys, -, hnumber, hstart⟩ := mem_placeLines.mp hm
      constructor
      · rw [hnumber]
        exact Nat.lt_of_lt_of_le (Nat.lt_succ_self number) (Nat.le_add_right _ _)
      · rw [hstart]
        exact Nat.lt_of_lt_of_le (Nat.lt_succ_self _) (Nat.le_add_right _ _)

theorem pairwise_linesOf (text : List Char) :
    (linesOf text).Pairwise fun l m =>
      l.number < m.number ∧ l.start + Text.byteLength l.chars < m.start :=
  pairwise_placeLines _ 1 0

/-! ## A line by its number -/

theorem length_placeLines (xs : List (List Char)) : ∀ number start : Nat,
    (placeLines number start xs).length = xs.length := by
  induction xs with
  | nil => intro number start; rfl
  | cons x xs ih => intro number start; rw [placeLines, List.length_cons, List.length_cons, ih]

theorem length_linesOf (text : List Char) : (linesOf text).length = text.count '\n' + 1 := by
  rw [linesOf, length_placeLines, Text.length_splitOn]

theorem number_of_getElem? (xs : List (List Char)) : ∀ {number start i : Nat} {l : PlacedLine},
    (placeLines number start xs)[i]? = some l → l.number = number + i := by
  induction xs with
  | nil => intro number start i l h; cases h
  | cons x xs ih =>
      intro number start i l h
      cases i with
      | zero => cases h; rfl
      | succ i =>
          rw [placeLines, List.getElem?_cons_succ] at h
          rw [ih h, Nat.add_assoc, Nat.add_comm 1]

theorem getElem?_linesOf {text : List Char} {i : Nat} {l : PlacedLine} :
    (linesOf text)[i]? = some l ↔ l ∈ linesOf text ∧ l.number = i + 1 := by
  constructor
  · intro h
    exact ⟨List.mem_of_getElem? h, (number_of_getElem? _ h).trans (Nat.add_comm 1 i)⟩
  · rintro ⟨hl, hnumber⟩
    obtain ⟨j, hj⟩ := List.getElem?_of_mem hl
    have hplace := number_of_getElem? _ hj
    obtain rfl : j = i := by omega
    exact hj

/-- A text has as many lines as line feeds, and one more. -/
theorem exists_isLine_iff {text : List Char} {n : Nat} :
    (∃ before line after, IsLine text (n + 1) before line after) ↔ n ≤ text.count '\n' := by
  constructor
  · rintro ⟨before, line, after, h⟩
    have hnumber := h.number
    rw [h.whole, List.append_assoc, List.count_append]
    omega
  · intro h
    have hlength : n < (linesOf text).length := by
      rw [length_linesOf]
      omega
    obtain ⟨hl, hnumber⟩ := getElem?_linesOf.mp (List.getElem?_eq_getElem hlength)
    obtain ⟨before, after, hline, -⟩ := mem_linesOf.mp hl
    rw [hnumber] at hline
    exact ⟨before, _, after, hline⟩

theorem IsLine.following {text before line later : List Char} {n : Nat}
    (h : IsLine text n before line ('\n' :: later)) :
    ∃ next after, IsLine text (n + 1) (before ++ line ++ ['\n']) next after := by
  refine ⟨later.takeWhile (· ≠ '\n'), later.dropWhile (· ≠ '\n'), ?_, ?_, .inr ⟨_, rfl⟩, ?_, ?_⟩
  · rw [h.whole, List.append_assoc (_ ++ ['\n']), List.takeWhile_append_dropWhile]
    simp
  · rw [h.number, List.count_append, List.count_append, List.count_singleton_self,
      List.count_eq_zero.mpr h.unbroken]
  · cases hrest : later.dropWhile (· ≠ '\n') with
    | nil => exact .inl rfl
    | cons c rest =>
        have hc := List.head?_dropWhile_not (· ≠ '\n') later
        rw [hrest] at hc
        exact .inr ⟨rest, by simpa using hc⟩
  · intro hfeed
    simpa using List.all_eq_true.mp List.all_takeWhile _ hfeed

theorem IsLine.before_of_lt {text before line after before' line' after' : List Char} {n m : Nat}
    (h : IsLine text n before line after) (h' : IsLine text m before' line' after') (hlt : n < m) :
    before ++ line <+: before' := by
  have hleft : before ++ line <+: text := ⟨after, h.whole.symm⟩
  have hright : before' <+: text := ⟨line' ++ after', by rw [h'.whole, List.append_assoc]⟩
  refine (List.prefix_or_prefix_of_prefix hleft hright).resolve_right fun hle => ?_
  -- otherwise there would be too few line feeds before the later line
  have hcount := hle.sublist.count_le '\n'
  rw [List.count_append, List.count_eq_zero.mpr h.unbroken] at hcount
  have hn := h.number
  have hm := h'.number
  omega

end CompletionCheck.Fixture
