/-!
# Blank characters

A character is blank when it has the Unicode property `White_Space`; zero-width spaces, the byte
order mark and the separators U+001C to U+001F do not have it.  Trimming and cutting into words
are by this class.  The spaces between the code of a fixture line and its marker are a narrower
class and are not treated here.
-/

namespace CompletionCheck.Text

/-- A character with the Unicode property `White_Space`. -/
def isBlank (c : Char) : Bool :=
  let n := c.toNat
  (0x09 ≤ n && n ≤ 0x0d) || n == 0x20 || n == 0x85 || n == 0xa0 || n == 0x1680 ||
    (0x2000 ≤ n && n ≤ 0x200a) || n == 0x2028 || n == 0x2029 || n == 0x202f || n == 0x205f ||
    n == 0x3000

def trimEnd (cs : List Char) : List Char :=
  (cs.reverse.dropWhile isBlank).reverse

def trim (cs : List Char) : List Char :=
  trimEnd (cs.dropWhile isBlank)

/-- The maximal runs of characters that are not blank, in order. -/
def words (cs : List Char) : List (List Char) :=
  (cs.splitOnP isBlank).filter fun word => !word.isEmpty

@[simp] theorem trim_nil : trim [] = [] := rfl

theorem trimEnd_append_blank (x : List Char) {y : List Char} (h : ∀ c ∈ y, isBlank c) :
    trimEnd (x ++ y) = trimEnd x := by
  have hreverse : ∀ c ∈ y.reverse, isBlank c := fun c hc => h c (List.mem_reverse.1 hc)
  rw [trimEnd, List.reverse_append, List.dropWhile_append_of_pos hreverse, trimEnd]

theorem trim_blank_append {x : List Char} (h : ∀ c ∈ x, isBlank c) (y : List Char) :
    trim (x ++ y) = trim y := by
  rw [trim, List.dropWhile_append_of_pos h, trim]

theorem trim_append_blank (x : List Char) {y : List Char} (h : ∀ c ∈ y, isBlank c) :
    trim (x ++ y) = trim x := by
  rw [trim, trim, List.dropWhile_append]
  split
  · rename_i hx
    rw [List.isEmpty_iff.1 hx, ← List.append_nil y, List.dropWhile_append_of_pos h]
    rfl
  · exact trimEnd_append_blank _ h

theorem exists_blank_append_dropWhile (cs : List Char) :
    ∃ x, (∀ c ∈ x, isBlank c) ∧ cs = x ++ cs.dropWhile isBlank :=
  ⟨cs.takeWhile isBlank, fun _ hc => List.all_eq_true.1 List.all_takeWhile _ hc,
    List.takeWhile_append_dropWhile.symm⟩

theorem exists_trimEnd_append_blank (cs : List Char) :
    ∃ y, (∀ c ∈ y, isBlank c) ∧ cs = trimEnd cs ++ y := by
  obtain ⟨x, hx, hcs⟩ := exists_blank_append_dropWhile cs.reverse
  refine ⟨x.reverse, fun c hc => hx c (List.mem_reverse.1 hc), ?_⟩
  have hreverse := congrArg List.reverse hcs
  rwa [List.reverse_reverse, List.reverse_append] at hreverse

theorem exists_blank_trim_blank (cs : List Char) : ∃ x y, (∀ c ∈ x, isBlank c) ∧
    (∀ c ∈ y, isBlank c) ∧ cs = x ++ (trim cs ++ y) := by
  obtain ⟨x, hx, hcs⟩ := exists_blank_append_dropWhile cs
  obtain ⟨y, hy, hrest⟩ := exists_trimEnd_append_blank (cs.dropWhile isBlank)
  exact ⟨x, y, hx, hy, hcs.trans (congrArg (x ++ ·) hrest)⟩

theorem mem_trim {c : Char} (h : isBlank c = false) {cs : List Char} : c ∈ trim cs ↔ c ∈ cs := by
  obtain ⟨x, y, hx, hy, hcs⟩ := exists_blank_trim_blank cs
  have noBlank : ∀ {z : List Char}, (∀ d ∈ z, isBlank d) → c ∉ z := fun hz hc => by
    rw [hz c hc] at h
    cases h
  conv => rhs; rw [hcs]
  simp [noBlank hx, noBlank hy]

/-- Trimming before a character is taken out changes nothing when there is trimming after it. -/
theorem trim_erase_trim {c : Char} (h : isBlank c = false) {cs : List Char} (hc : c ∈ cs) :
    trim ((trim cs).erase c) = trim (cs.erase c) := by
  obtain ⟨x, y, hx, hy, hcs⟩ := exists_blank_trim_blank cs
  have hleft : c ∉ x := fun hcx => by
    rw [hx c hcx] at h
    cases h
  have herase : cs.erase c = x ++ ((trim cs).erase c ++ y) := by
    conv => lhs; rw [hcs]
    rw [List.erase_append_right _ hleft, List.erase_append_left _ ((mem_trim h).2 hc)]
  rw [herase, trim_blank_append hx, trim_append_blank _ hy]

end CompletionCheck.Text
