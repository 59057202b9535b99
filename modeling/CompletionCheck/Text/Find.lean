/-!
# Looking for a text in a text

The first occurrence of a mark decides everywhere in this library: where a line is cut at its
comment marker, where a header line is cut at its colon, and whether a name holds a word.
`cutAt?` finds that occurrence and gives the two sides of it, so that nothing of the text is lost
(`append_of_cutAt?`), and no earlier occurrence is passed over (`length_le_of_cutAt?`).
In turn, a mark that was put where none begins before it is the one that is found
(`cutAt?_of_first`).
-/

namespace CompletionCheck.Text

/-- Cuts a text at the first occurrence of `mark` into what stands before and after it. -/
def cutAt? (mark : List Char) : List Char → Option (List Char × List Char)
  | [] => if mark.isEmpty then some ([], []) else none
  | c :: cs =>
    if mark.isPrefixOf (c :: cs) then some ([], (c :: cs).drop mark.length)
    else (cutAt? mark cs).map fun sides => (c :: sides.1, sides.2)

def occursIn (part cs : List Char) : Bool :=
  (cutAt? part cs).isSome

theorem append_of_cutAt? {mark cs before after : List Char}
    (h : cutAt? mark cs = some (before, after)) : before ++ (mark ++ after) = cs := by
  induction cs generalizing before with
  | nil =>
    cases mark with
    | nil => cases h; rfl
    | cons m ms => cases h
  | cons c cs ih =>
    rw [cutAt?] at h
    split at h
    · rename_i starts
      cases h
      obtain ⟨rest, hr⟩ := List.isPrefixOf_iff_prefix.1 starts
      simp [← hr]
    · obtain ⟨⟨b, a⟩, hb, he⟩ := Option.map_eq_some_iff.1 h
      cases he
      simp [ih hb]

theorem isSome_cutAt?_iff {mark cs : List Char} : (cutAt? mark cs).isSome ↔ mark <:+: cs := by
  induction cs with
  | nil => cases mark <;> simp [cutAt?]
  | cons c cs ih =>
    rw [cutAt?]
    by_cases starts : mark.isPrefixOf (c :: cs) = true
    · simp [starts, (List.isPrefixOf_iff_prefix.1 starts).isInfix]
    · rw [if_neg starts, Option.isSome_map, ih, List.infix_cons_iff]
      simp [← List.isPrefixOf_iff_prefix, starts]

/-- No occurrence of the mark begins before the place of the cut. -/
theorem length_le_of_cutAt? {mark cs before after x y : List Char}
    (h : cutAt? mark cs = some (before, after)) (hxy : x ++ (mark ++ y) = cs) :
    before.length ≤ x.length := by
  induction cs generalizing before x with
  | nil =>
    obtain rfl : before = [] := by
      have whole := append_of_cutAt? h
      simp_all
    exact Nat.zero_le _
  | cons c cs ih =>
    rw [cutAt?] at h
    split at h
    · cases h
      exact Nat.zero_le _
    · rename_i starts
      obtain ⟨⟨b, a⟩, hb, he⟩ := Option.map_eq_some_iff.1 h
      cases he
      cases x with
      | nil => exact absurd (List.isPrefixOf_iff_prefix.2 ⟨y, hxy⟩) starts
      | cons d x =>
        obtain ⟨-, hx⟩ := List.cons.inj hxy
        exact Nat.succ_le_succ (ih hb hx)

/-- A text is cut at a mark before which, and overlapping which, there is none. -/
theorem cutAt?_of_first {mark before : List Char}
    (h : ∀ x y, x ++ (mark ++ y) = before ++ mark → y = []) (after : List Char) :
    cutAt? mark (before ++ (mark ++ after)) = some (before, after) := by
  have occurs : mark <:+: before ++ (mark ++ after) := ⟨before, after, by simp⟩
  obtain ⟨⟨x, rest⟩, hcut⟩ := Option.isSome_iff_exists.1 (isSome_cutAt?_iff.2 occurs)
  have whole := append_of_cutAt? hcut
  have least := length_le_of_cutAt? hcut (x := before) rfl
  -- the mark that was found ends within the text up to the mark that was meant
  have found : x ++ mark <+: before ++ (mark ++ after) := ⟨rest, by simpa using whole⟩
  have meant : before ++ mark <+: before ++ (mark ++ after) := ⟨after, by simp⟩
  obtain ⟨y, hy⟩ := List.prefix_of_prefix_length_le found meant (by simpa using least)
  rw [List.append_assoc] at hy
  obtain rfl := h x y hy
  rw [List.append_nil] at hy
  obtain rfl := List.append_cancel_right hy
  rw [hcut, List.append_cancel_left (List.append_cancel_left whole)]

theorem cutAt?_singleton {m : Char} {before : List Char} (h : m ∉ before) (after : List Char) :
    cutAt? [m] (before ++ m :: after) = some (before, after) := by
  induction before with
  | nil => simp [cutAt?]
  | cons c before ih =>
    rw [List.mem_cons, not_or] at h
    rw [List.cons_append, cutAt?, ih h.2]
    simp [h.1]

theorem eq_nil_of_cutAt? {mark cs before after x y : List Char}
    (h : cutAt? mark cs = some (before, after)) (hxy : x ++ (mark ++ y) = before ++ mark) :
    y = [] := by
  have whole : x ++ (mark ++ (y ++ after)) = cs := by
    rw [← append_of_cutAt? h, ← List.append_assoc before, ← hxy]
    simp
  have least := length_le_of_cutAt? h whole
  have lengths := congrArg List.length hxy
  simp only [List.length_append] at lengths
  exact List.length_eq_zero_iff.1 (by omega)

theorem not_mem_of_mem_splitOn {α : Type} [BEq α] [LawfulBEq α] {x : α} {xs piece : List α}
    (h : piece ∈ xs.splitOn x) : x ∉ piece := by
  induction xs generalizing piece with
  | nil => simp_all
  | cons c xs ih =>
    rw [List.splitOn_cons_eq_if_modifyHead] at h
    split at h
    · rcases List.mem_cons.1 h with rfl | h
      · exact List.not_mem_nil
      · exact ih h
    · rename_i hc
      obtain ⟨first, others, hs⟩ := List.exists_cons_of_ne_nil (List.splitOn_ne_nil x xs)
      rw [hs] at ih h
      rw [List.modifyHead_cons] at h
      rcases List.mem_cons.1 h with rfl | h
      · rw [List.mem_cons, not_or]
        exact ⟨fun heq => hc (beq_iff_eq.2 heq.symm), ih List.mem_cons_self⟩
      · exact ih (List.mem_cons_of_mem _ h)

theorem length_splitOn {α : Type} [BEq α] [LawfulBEq α] (x : α) (xs : List α) :
    (xs.splitOn x).length = xs.count x + 1 := by
  induction xs with
  | nil => simp
  | cons c xs ih =>
    rw [List.splitOn_cons_eq_if_modifyHead, List.count_cons]
    split
    · simp [ih]
    · simp [ih]

end CompletionCheck.Text
